import Mathlib.Data.List.Forall2
import Pkix.Error

/-!
# Operations that may fail

When an operation built from others succeeds, and what it then gives. Lists are read and written
member by member: a traversal succeeds exactly if it does so at every member, and one that undoes
another at every member undoes it on lists. The errors of an operation are those of its parts, and
two runs of it agree as far as those of its parts do.
-/

namespace Pkix

section Except

variable {ε α β : Type}

theorem bind_eq_ok_iff {x : Except ε α} {f : α → Except ε β} {b : β} :
    (x >>= f) = .ok b ↔ ∃ a, x = .ok a ∧ f a = .ok b := by
  cases x <;> simp [bind, Except.bind]

theorem bind_eq_error_iff {x : Except ε α} {f : α → Except ε β} {err : ε} :
    (x >>= f) = .error err ↔ x = .error err ∨ ∃ a, x = .ok a ∧ f a = .error err := by
  cases x <;> simp [bind, Except.bind]

theorem map_eq_ok_iff {x : Except ε α} {g : α → β} {b : β} :
    (g <$> x) = .ok b ↔ ∃ a, x = .ok a ∧ g a = b := by
  cases x <;> simp [Functor.map, Except.map]

theorem map_eq_error_iff {x : Except ε α} {g : α → β} {err : ε} :
    (g <$> x) = .error err ↔ x = .error err := by
  cases x <;> simp [Functor.map, Except.map]

theorem pure_eq_ok_iff {a b : α} : (pure a : Except ε α) = .ok b ↔ a = b := by
  simp [pure, Except.pure]

theorem Error.ifNone_eq_ok_iff {e : Error} {o : Option α} {a : α} :
    e.ifNone o = .ok a ↔ o = some a := by
  cases o <;> simp [Error.ifNone]

theorem Error.ifNone_eq_error_iff {e err : Error} {o : Option α} :
    e.ifNone o = .error err ↔ o = none ∧ err = e := by
  cases o <;> simp [Error.ifNone, eq_comm]

/-- Leaving a value out under a condition, and else keeping what an operation gives. -/
theorem ite_none_eq_ok_iff {c : Prop} [Decidable c] {x : Except ε α} {o : Option α} :
    (if c then pure none else some <$> x) = .ok o ↔
      c ∧ o = none ∨ ¬c ∧ ∃ a, x = .ok a ∧ o = some a := by
  by_cases h : c
  · rw [if_pos h, pure_eq_ok_iff]
    simp [h, eq_comm]
  · rw [if_neg h, map_eq_ok_iff]
    simp [h, eq_comm]

theorem exists_ite_none_eq_ok_iff {c : Prop} [Decidable c] {x : Except ε α} :
    (∃ o, (if c then pure none else some <$> x) = .ok o) ↔ (¬c → ∃ a, x = .ok a) := by
  by_cases h : c
  · simp [h, pure, Except.pure]
  · simp [h, map_eq_ok_iff]

end Except

/-- One arm of a choice between options. -/
theorem of_ite_eq_some {α : Type} {c : Prop} [Decidable c] {a b : α} {o : Option α}
    (h : (if c then some a else o) = some b) : c ∧ a = b ∨ o = some b := by
  split at h
  · rename_i hc
    exact Or.inl ⟨hc, Option.some.inj h⟩
  · exact Or.inr h

/-! ## Lists -/

section Related

variable {α β : Type} {R : α → β → Prop} {as : List α} {bs : List β}

theorem exists_of_mem_left (h : List.Forall₂ R as bs) {a : α} (ha : a ∈ as) : ∃ b ∈ bs, R a b := by
  induction h with
  | nil => simp at ha
  | cons hab _ ih =>
      rcases List.mem_cons.mp ha with rfl | ha
      · exact ⟨_, List.mem_cons_self, hab⟩
      · obtain ⟨b, hb, hone⟩ := ih ha
        exact ⟨b, List.mem_cons_of_mem _ hb, hone⟩

theorem exists_of_mem_right (h : List.Forall₂ R as bs) {b : β} (hb : b ∈ bs) :
    ∃ a ∈ as, R a b :=
  exists_of_mem_left (R := fun b a => R a b) h.flip hb

theorem map_eq_self_iff {f : α → α} : as.map f = as ↔ ∀ a ∈ as, f a = a := by
  conv_lhs => rhs; rw [← List.map_id as]
  exact List.map_inj_left

theorem map_eq_self {f : α → α} (h : ∀ a ∈ as, f a = a) : as.map f = as :=
  map_eq_self_iff.mpr h

end Related

theorem mapM_eq_pure {m : Type → Type} [Monad m] [LawfulMonad m] {α β : Type} {f : α → m β}
    {g : α → β} {as : List α} (h : ∀ a ∈ as, f a = pure (g a)) : as.mapM f = pure (as.map g) := by
  induction as with
  | nil => rfl
  | cons a rest ih =>
      rw [List.mapM_cons, h a List.mem_cons_self, ih fun b hb => h b (List.mem_cons_of_mem a hb)]
      simp

/-- Reading each member of a list that was written member by member gives the list back. -/
theorem mapM_map_eq_pure {m : Type → Type} [Monad m] [LawfulMonad m] {α β : Type} {f : α → β}
    {g : β → m α} {as : List α} (h : ∀ a ∈ as, g (f a) = pure a) : (as.map f).mapM g = pure as := by
  rw [List.mapM_map, mapM_eq_pure (f := g ∘ f) (g := id) h, List.map_id]

/-- Reading an optional value after it was mapped. -/
theorem option_mapM_map {α β γ : Type} {f : α → β} {g : β → Option γ} {k : α → Option γ}
    {value : Option α} (h : ∀ a ∈ value, g (f a) = k a) : (value.map f).mapM g = value.mapM k := by
  cases value with
  | none => rfl
  | some a => simp [h a rfl]

/-- Reading an optional value gives it back, present or not. -/
theorem option_mapM_self {α : Type} {k : α → Option α} {value : Option α}
    (h : ∀ a ∈ value, k a = some a) : value.mapM k = some value := by
  cases value with
  | none => rfl
  | some a => simp [h a rfl]

/-- An optional value is read only if what is there can be. -/
theorem exists_of_mem_option_mapM {α β : Type} {g : α → Option β} {value : Option α}
    {back : Option β} (h : value.mapM g = some back) {a : α} (ha : a ∈ value) :
    ∃ b, g a = some b := by
  rw [Option.mem_def.mp ha, Option.mapM_some, Option.map_eq_map, Option.map_eq_some_iff] at h
  obtain ⟨b, hb, -⟩ := h
  exact ⟨b, hb⟩

/-- What an optional value was read as was read from it. -/
theorem exists_of_option_mapM {α β : Type} {g : β → Option α} {field : Option β} {value : Option α}
    (h : field.mapM g = some value) {a : α} (ha : a ∈ value) : ∃ b, g b = some a := by
  cases field with
  | none =>
      obtain rfl := Option.some.inj h
      cases ha
  | some b =>
      rw [Option.mem_def.mp ha, Option.mapM_some, Option.map_eq_map, Option.map_eq_some_iff] at h
      obtain ⟨a', hb, hsome⟩ := h
      obtain rfl := Option.some.inj hsome
      exact ⟨b, hb⟩

theorem option_mapM_eq_ok_iff {ε α β : Type} {f : α → Except ε β} {value : Option α}
    {back : Option β} :
    value.mapM f = .ok back ↔
      value = none ∧ back = none ∨ ∃ a b, value = some a ∧ f a = .ok b ∧ back = some b := by
  cases value with
  | none => simp [pure, Except.pure, eq_comm]
  | some a =>
      rw [Option.mapM_some, map_eq_ok_iff]
      constructor
      · rintro ⟨b, hb, rfl⟩
        exact Or.inr ⟨a, b, rfl, hb, rfl⟩
      · rintro (⟨hnone, -⟩ | ⟨a', b, ha, hb, rfl⟩)
        · cases hnone
        · obtain rfl := Option.some.inj ha
          exact ⟨b, hb, rfl⟩

theorem mapM_eq_some_iff {α β : Type} {f : α → Option β} {as : List α} {bs : List β} :
    as.mapM f = some bs ↔ List.Forall₂ (fun a b => f a = some b) as bs := by
  induction as generalizing bs with
  | nil => simp [eq_comm]
  | cons a rest ih =>
      simp only [List.mapM_cons, Option.bind_eq_bind, Option.bind_eq_some_iff, Option.pure_def,
        Option.some.injEq, List.forall₂_cons_left_iff, ih]
      constructor
      · rintro ⟨b, hb, cs, hcs, rfl⟩
        exact ⟨b, cs, hb, hcs, rfl⟩
      · rintro ⟨b, cs, hb, hcs, rfl⟩
        exact ⟨b, hb, cs, hcs, rfl⟩

/-- A list that was read member by member is written back so if every member is. -/
theorem map_eq_of_mapM_eq_some {α β : Type} {f : α → Option β} {g : β → α}
    (hfg : ∀ a b, f a = some b → g b = a) {as : List α} {bs : List β}
    (h : as.mapM f = some bs) : bs.map g = as := by
  rw [mapM_eq_some_iff] at h
  induction h with
  | nil => rfl
  | cons hab _ ih => rw [List.map_cons, hfg _ _ hab, ih]

variable {ε α β : Type} {f : α → Except ε β}

theorem mapM_eq_ok_iff {as : List α} {bs : List β} :
    as.mapM f = .ok bs ↔ List.Forall₂ (fun a b => f a = .ok b) as bs := by
  induction as generalizing bs with
  | nil => rw [List.mapM_nil, pure_eq_ok_iff, List.forall₂_nil_left_iff, eq_comm]
  | cons a rest ih =>
      simp only [List.mapM_cons, bind_eq_ok_iff, pure_eq_ok_iff, List.forall₂_cons_left_iff, ih]
      constructor
      · rintro ⟨b, hb, cs, hcs, rfl⟩
        exact ⟨b, cs, hb, hcs, rfl⟩
      · rintro ⟨b, cs, hb, hcs, rfl⟩
        exact ⟨b, hb, cs, hcs, rfl⟩

/-- Every member of what a traversal gives is the result at some member of its list. -/
theorem exists_of_mem_mapM {as : List α} {bs : List β} (h : as.mapM f = .ok bs) {b : β}
    (hb : b ∈ bs) : ∃ a ∈ as, f a = .ok b :=
  exists_of_mem_right (mapM_eq_ok_iff.mp h) hb

/-- A traversal by an operation that only checks its argument and then maps it. -/
theorem mapM_eq_ok_iff_map {P : α → Prop} {g : α → β}
    (h : ∀ a b, f a = .ok b ↔ P a ∧ b = g a) {as : List α} {bs : List β} :
    as.mapM f = .ok bs ↔ (∀ a ∈ as, P a) ∧ bs = as.map g := by
  rw [mapM_eq_ok_iff]
  induction as generalizing bs with
  | nil => simp
  | cons a rest ih =>
      rw [List.forall₂_cons_left_iff, List.forall_mem_cons, List.map_cons]
      constructor
      · rintro ⟨b, cs, hb, hcs, rfl⟩
        obtain ⟨ha, rfl⟩ := (h a b).mp hb
        obtain ⟨hrest, rfl⟩ := ih.mp hcs
        exact ⟨⟨ha, hrest⟩, rfl⟩
      · rintro ⟨⟨ha, hrest⟩, rfl⟩
        exact ⟨g a, rest.map g, (h a _).mpr ⟨ha, rfl⟩, ih.mpr ⟨hrest, rfl⟩, rfl⟩

theorem exists_mapM_eq_ok_iff {as : List α} :
    (∃ bs, as.mapM f = .ok bs) ↔ ∀ a ∈ as, ∃ b, f a = .ok b := by
  induction as with
  | nil => simp [pure, Except.pure]
  | cons a rest ih =>
      simp only [List.mapM_cons, bind_eq_ok_iff, pure_eq_ok_iff, List.forall_mem_cons, ← ih]
      constructor
      · rintro ⟨-, b, hb, cs, hcs, -⟩
        exact ⟨⟨b, hb⟩, cs, hcs⟩
      · rintro ⟨⟨b, hb⟩, cs, hcs⟩
        exact ⟨b :: cs, b, hb, cs, hcs, rfl⟩

/-- A traversal fails at the first member where its operation does, with the error of that. -/
theorem mapM_eq_error_iff {as : List α} {err : ε} :
    as.mapM f = .error err ↔
      ∃ before a after, as = before ++ a :: after ∧ (∀ b ∈ before, ∃ c, f b = .ok c) ∧
        f a = .error err := by
  induction as with
  | nil => simp [pure, Except.pure]
  | cons a rest ih =>
      rw [List.mapM_cons]
      cases ha : f a with
      | error err' =>
          constructor
          · intro h
            have herr : err' = err := by simpa [bind, Except.bind] using h
            exact ⟨[], a, rest, rfl, by simp, by rw [ha, herr]⟩
          · rintro ⟨before, b, after, hsplit, hbefore, hb⟩
            cases before with
            | nil =>
                obtain ⟨rfl, -⟩ := List.cons.inj hsplit
                rw [← ha, hb]
                rfl
            | cons c before =>
                obtain ⟨rfl, -⟩ := List.cons.inj hsplit
                obtain ⟨d, hd⟩ := hbefore a List.mem_cons_self
                rw [ha] at hd
                cases hd
      | ok b =>
          have hrest : (do return b :: (← rest.mapM f)) = (Except.error err : Except ε (List β)) ↔
              rest.mapM f = .error err := map_eq_error_iff (g := (b :: ·))
          refine hrest.trans (ih.trans ?_)
          constructor
          · rintro ⟨before, c, after, rfl, hbefore, hc⟩
            refine ⟨a :: before, c, after, rfl, ?_, hc⟩
            exact List.forall_mem_cons.mpr ⟨⟨b, ha⟩, hbefore⟩
          · rintro ⟨before, c, after, hsplit, hbefore, hc⟩
            cases before with
            | nil =>
                obtain ⟨rfl, -⟩ := List.cons.inj hsplit
                rw [ha] at hc
                cases hc
            | cons d before =>
                obtain ⟨rfl, rfl⟩ := List.cons.inj hsplit
                exact ⟨before, c, after, rfl, (List.forall_mem_cons.mp hbefore).2, hc⟩

/-- A traversal of what another one gave, which leads from every member to a related one. -/
theorem exists_mapM_of_mapM_eq_ok {γ : Type} {g : β → Except ε γ} {R : α → γ → Prop} {as : List α}
    {bs : List β} (h : as.mapM f = .ok bs)
    (hg : ∀ a ∈ as, ∀ b ∈ bs, f a = .ok b → ∃ c, g b = .ok c ∧ R a c) :
    ∃ cs, bs.mapM g = .ok cs ∧ List.Forall₂ R as cs := by
  simp only [mapM_eq_ok_iff] at h ⊢
  induction h with
  | nil => exact ⟨[], .nil, .nil⟩
  | cons hab _ ih =>
      obtain ⟨c, hc, hac⟩ := hg _ List.mem_cons_self _ List.mem_cons_self hab
      obtain ⟨cs, hcs, hrest⟩ := ih fun a ha b hb =>
        hg a (List.mem_cons_of_mem _ ha) b (List.mem_cons_of_mem _ hb)
      exact ⟨c :: cs, .cons hc hcs, .cons hac hrest⟩

/-- A traversal of what another one gave, which maps every member. -/
theorem mapM_eq_ok_map_of_mapM_eq_ok {γ : Type} {g : β → Except ε γ} {r : α → γ} {as : List α}
    {bs : List β} (h : as.mapM f = .ok bs)
    (hg : ∀ a ∈ as, ∀ b ∈ bs, f a = .ok b → g b = .ok (r a)) :
    bs.mapM g = .ok (as.map r) := by
  obtain ⟨cs, hcs, hall⟩ := exists_mapM_of_mapM_eq_ok (R := fun a c => r a = c) h
    fun a ha b hb hab => ⟨r a, hg a ha b hb hab, rfl⟩
  have heq : List.Forall₂ Eq (as.map r) cs := List.forall₂_map_left_iff.mpr hall
  rw [List.forall₂_eq_eq_eq] at heq
  rwa [heq]

/-- A traversal that undoes another one at every member undoes it on the list. -/
theorem mapM_eq_ok_of_mapM_eq_ok {g : β → Except ε α} {as : List α} {bs : List β}
    (h : as.mapM f = .ok bs) (hg : ∀ a ∈ as, ∀ b ∈ bs, f a = .ok b → g b = .ok a) :
    bs.mapM g = .ok as := by
  rw [← List.map_id as]
  exact mapM_eq_ok_map_of_mapM_eq_ok h hg

/-! ## Errors -/

/-- Whether every error that an operation may end with has a property. -/
def FailsAs (P : ε → Prop) (x : Except ε α) : Prop := ∀ err, x = .error err → P err

namespace FailsAs

variable {P : ε → Prop} {x : Except ε α} {g : α → Except ε β}

theorem ok (a : α) : FailsAs P (.ok a : Except ε α) := fun _ h => by cases h

theorem error {err : ε} (h : P err) : FailsAs P (.error err : Except ε α) := fun _ herr => by
  cases herr
  exact h

theorem bind (h : FailsAs P x) (hg : ∀ a, x = .ok a → FailsAs P (g a)) : FailsAs P (x >>= g) := by
  intro err herr
  rcases bind_eq_error_iff.mp herr with hx | ⟨a, ha, hnext⟩
  · exact h err hx
  · exact hg a ha err hnext

/-- Computing with what an operation gives adds no errors. -/
theorem bind_pure (h : FailsAs P x) (k : α → β) : FailsAs P (do return k (← x)) :=
  h.bind fun a _ => ok (k a)

theorem map (h : FailsAs P x) (k : α → β) : FailsAs P (k <$> x) :=
  fun err herr => h err (map_eq_error_iff.mp herr)

theorem mapM {as : List α} (h : ∀ a ∈ as, FailsAs P (g a)) : FailsAs P (as.mapM g) := by
  intro err herr
  obtain ⟨before, a, after, rfl, -, ha⟩ := mapM_eq_error_iff.mp herr
  exact h a (by simp) err ha

theorem option_mapM {value : Option α} (h : ∀ a ∈ value, FailsAs P (g a)) :
    FailsAs P (value.mapM g) := by
  cases value with
  | none => exact ok none
  | some a => exact (h a rfl).map some

theorem ifNone {P : Error → Prop} {err : Error} (h : P err) (o : Option α) :
    FailsAs P (err.ifNone o) := by
  intro err' herr
  obtain ⟨-, rfl⟩ := Error.ifNone_eq_error_iff.mp herr
  exact h

theorem ite_error {c : Prop} [Decidable c] {err : ε} (h : P err) (a : α) :
    FailsAs P (if c then .ok a else .error err) := by
  split
  · exact ok a
  · exact error h

/-- Leaving a value out under a condition, and then going on with what is there. -/
theorem optional_bind {c : Prop} [Decidable c] {k : Option α → Except ε β} (h : FailsAs P x)
    (hk : ∀ o, FailsAs P (k o)) :
    FailsAs P (if c then pure none >>= k else some <$> x >>= k) := by
  split
  · exact hk none
  · exact (h.map some).bind fun o _ => hk o

end FailsAs

/-! ## Two runs -/

/-- Whether two runs of an operation end with one error, or with values of which only as much
differs as a map takes away. -/
inductive AgreeUpTo {γ : Type} (u : α → γ) : Except ε α → Except ε α → Prop
  | ok {a a' : α} (h : u a = u a') : AgreeUpTo u (.ok a) (.ok a')
  | error (err : ε) : AgreeUpTo u (.error err) (.error err)

namespace AgreeUpTo

variable {γ δ : Type} {u : α → γ} {v : β → δ} {x x' : Except ε α} {f' : α → Except ε β}

theorem refl (x : Except ε α) : AgreeUpTo u x x := by
  cases x with
  | ok a => exact .ok rfl
  | error err => exact .error err

theorem bind (h : AgreeUpTo u x x') (hf : ∀ a a', u a = u a' → AgreeUpTo v (f a) (f' a')) :
    AgreeUpTo v (x >>= f) (x' >>= f') := by
  cases h with
  | ok ha => exact hf _ _ ha
  | error err => exact .error err

theorem of_ok {a a' : α} (h : AgreeUpTo u (.ok a : Except ε α) (.ok a')) : u a = u a' := by
  cases h with
  | ok h => exact h

theorem eq_error_iff (h : AgreeUpTo u x x') {err : ε} : x = .error err ↔ x' = .error err := by
  cases h <;> simp

theorem exists_eq_ok_iff (h : AgreeUpTo u x x') : (∃ a, x = .ok a) ↔ ∃ a', x' = .ok a' := by
  cases h <;> simp

/-- What both runs begin with. -/
theorem bind_left (x : Except ε α) (h : ∀ a, AgreeUpTo v (f a) (f' a)) :
    AgreeUpTo v (x >>= f) (x >>= f') := by
  cases x with
  | ok a => exact h a
  | error err => exact .error err

theorem bind_pure {k : α → β} (h : AgreeUpTo u x x')
    (hk : ∀ a a', u a = u a' → v (k a) = v (k a')) :
    AgreeUpTo v (do return k (← x)) (do return k (← x')) :=
  h.bind fun a a' ha => .ok (hk a a' ha)

theorem map {k : α → β} (h : AgreeUpTo u x x') (hk : ∀ a a', u a = u a' → v (k a) = v (k a')) :
    AgreeUpTo v (k <$> x) (k <$> x') := by
  cases h with
  | ok ha => exact .ok (hk _ _ ha)
  | error err => exact .error err

theorem mapM {as : List α} (h : ∀ a, AgreeUpTo v (f a) (f' a)) :
    AgreeUpTo (List.map v) (as.mapM f) (as.mapM f') := by
  induction as with
  | nil => exact .ok rfl
  | cons a rest ih =>
      rw [List.mapM_cons, List.mapM_cons]
      refine (h a).bind fun b b' hb => ih.bind fun bs bs' hbs => .ok ?_
      rw [List.map_cons, List.map_cons, hb, hbs]

theorem option_mapM {value : Option α} (h : ∀ a, AgreeUpTo v (f a) (f' a)) :
    AgreeUpTo (Option.map v) (value.mapM f) (value.mapM f') := by
  cases value with
  | none => exact .ok rfl
  | some a => exact (h a).map fun b b' hb => congrArg some hb

end AgreeUpTo

end Pkix
