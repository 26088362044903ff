import Mathlib.Data.List.Basic

/-!
# Texts up to their delimiters

A text that a delimiter follows is known from the whole, whatever comes after the delimiter, unless
the delimiter begins somewhere in the text itself. A delimiter here begins with a mark that does not
come again in it, so two of its occurrences never overlap.
-/

namespace Pkix

variable {α β : Type}

theorem append_cons_inj {c : α} {xs ys zs ws : List α} (hxs : c ∉ xs) (hys : c ∉ ys)
    (h : xs ++ c :: zs = ys ++ c :: ws) : xs = ys ∧ zs = ws := by
  suffices hfirst : xs = ys by
    subst hfirst
    exact ⟨rfl, by simpa using h⟩
  rcases List.append_eq_append_iff.mp h with ⟨more, rfl, hmore⟩ | ⟨more, rfl, hmore⟩
  all_goals
    cases more with
    | nil => simp
    | cons d more =>
        obtain ⟨rfl, -⟩ := List.cons.inj hmore
        simp at hxs hys

/-! ## Where a delimiter begins -/

/-- Whether a delimiter begins in a text that another text follows. -/
def BeginsIn (delimiter text next : List α) : Prop :=
  ∃ before after, text ++ next = before ++ delimiter ++ after ∧ before.length < text.length

theorem BeginsIn.append_left {delimiter text next : List α} (h : BeginsIn delimiter text next)
    (front : List α) : BeginsIn delimiter (front ++ text) next := by
  obtain ⟨before, after, heq, hlt⟩ := h
  exact ⟨front ++ before, after, by simp [heq], by simpa using hlt⟩

theorem BeginsIn.isInfix {delimiter text : List α} (h : BeginsIn delimiter text []) :
    delimiter <:+: text := by
  obtain ⟨before, after, heq, -⟩ := h
  exact ⟨before, after, by simpa using heq.symm⟩

/-- A delimiter that ends a line and begins in the line before ends there too. -/
theorem BeginsIn.isInfix_append_singleton {e : α} {front text next : List α} (he : e ∉ front)
    (h : BeginsIn (front ++ [e]) text (e :: next)) : front ++ [e] <:+: text ++ [e] := by
  obtain ⟨before, after, heq, hlt⟩ := h
  obtain ⟨rest, rfl⟩ : before <+: text := by
    have hbefore : before <+: text ++ e :: next := ⟨front ++ [e] ++ after, by simp [heq]⟩
    exact List.prefix_of_prefix_length_le hbefore (by simp) (by omega)
  have hrest : rest ++ e :: next = front ++ e :: after := by simpa using heq
  by_cases hmem : e ∈ rest
  · obtain ⟨first, last, rfl, hfirst⟩ := List.eq_append_cons_of_mem hmem
    obtain ⟨rfl, -⟩ := append_cons_inj hfirst he (by simpa using hrest)
    exact ⟨before, last ++ [e], by simp⟩
  · obtain ⟨rfl, -⟩ := append_cons_inj hmem he hrest
    exact ⟨before, [], by simp⟩

/-! ## One delimiter -/

section Mark

variable {mark : α} {rest : List α} (hmark : mark ∉ rest)

include hmark

/-- A delimiter that is found again further on lies before that place. -/
theorem prefix_of_append_eq {text r r' : List α} (htext : text ≠ [])
    (h : mark :: rest ++ r = text ++ (mark :: rest ++ r')) : mark :: rest <+: text := by
  rcases List.append_eq_append_iff.mp h with ⟨more, htext', -⟩ | ⟨more, hdelimiter, hmore⟩
  · exact ⟨more, htext'.symm⟩
  · obtain ⟨c, text, rfl⟩ := List.exists_cons_of_ne_nil htext
    obtain ⟨rfl, rfl⟩ := List.cons.inj hdelimiter
    cases more with
    | nil => simp
    | cons d more =>
        obtain ⟨rfl, -⟩ := List.cons.inj hmore
        simp at hmark

/-- Where a text and its delimiter follow a text as well as they begin there, the delimiter begins
in that text. -/
theorem beginsIn_of_append_eq {text next r r' : List α} (htext : text ≠ [])
    (h : next ++ (mark :: rest ++ r) = text ++ (next ++ (mark :: rest ++ r'))) :
    BeginsIn (mark :: rest) text next := by
  -- Each step takes one `text` off the front of `next`, until less than a `text` is left of it.
  induction hlength : next.length using Nat.strongRecOn generalizing next with
  | ind n ih =>
      rcases List.append_eq_append_iff.mp h with ⟨more, rfl, hmore⟩ | ⟨more, rfl, hmore⟩
      · have hne : more ++ next ≠ [] := fun hnil => htext (by simp_all)
        obtain ⟨after, hafter⟩ := prefix_of_append_eq hmark hne (by simpa using hmore)
        by_cases hnil : more = []
        · subst hnil
          have hpos : 0 < next.length := List.length_pos_of_ne_nil hne
          refine ⟨[], after ++ next, ?_, by simpa using hpos⟩
          rw [List.append_nil, List.nil_append, ← List.append_assoc, hafter, List.nil_append]
        · refine ⟨next, after, by simp [← hafter], ?_⟩
          simpa using List.length_pos_of_ne_nil hnil
      · have hpos : 0 < text.length := List.length_pos_of_ne_nil htext
        have heq : more ++ (mark :: rest ++ r) = text ++ (more ++ (mark :: rest ++ r')) := by
          simpa using hmore.symm
        obtain ⟨before, after, hfound, hlt⟩ :=
          ih more.length (by simp [← hlength, hpos]) heq rfl
        obtain ⟨tail, htail⟩ : more <+: text ++ more := by
          have hmore : more <+: text ++ more ++ (mark :: rest ++ r') := by
            rw [List.append_assoc, ← heq]
            exact List.prefix_append _ _
          exact List.prefix_of_prefix_length_le hmore (List.prefix_append _ _) (by simp)
        refine ⟨before, after ++ tail, ?_, hlt⟩
        rw [← htail, ← List.append_assoc, hfound]
        simp

/-- Two texts with the same delimiter after them are the same, provided that it begins in
neither. -/
theorem eq_of_append_delimiter {v v' next r r' : List α} (hv : ¬ BeginsIn (mark :: rest) v next)
    (hv' : ¬ BeginsIn (mark :: rest) v' next)
    (h : v ++ (next ++ (mark :: rest ++ r)) = v' ++ (next ++ (mark :: rest ++ r'))) : v = v' := by
  rcases List.append_eq_append_iff.mp h with ⟨more, rfl, hmore⟩ | ⟨more, rfl, hmore⟩
  · by_cases hnil : more = []
    · simp [hnil]
    · exact absurd ((beginsIn_of_append_eq hmark hnil hmore).append_left v) hv'
  · by_cases hnil : more = []
    · simp [hnil]
    · exact absurd ((beginsIn_of_append_eq hmark hnil hmore).append_left v') hv

end Mark

/-! ## Sequences -/

/-- Whether a value is known from its code, whatever follows the code. -/
def SelfDelimiting (P : α → Prop) (code : α → List β) : Prop :=
  ∀ ⦃a b : α⦄, P a → P b → ∀ ⦃r r' : List β⦄, code a ++ r = code b ++ r' → a = b

namespace SelfDelimiting

variable {P : α → Prop} {code : α → List β}

theorem ne (h : SelfDelimiting P code) {a b : α} (ha : P a) (hb : P b) (hne : a ≠ b) :
    code a ≠ code b :=
  fun heq => hne (h ha hb (congrArg (· ++ []) heq))

theorem append_left (h : SelfDelimiting P code) (front : List β) :
    SelfDelimiting P fun a => front ++ code a := by
  intro a b ha hb r r' heq
  exact h ha hb (by simpa using heq)

/-- A list is known from the codes of its members up to a stop that no code begins with. -/
theorem flatMap (h : SelfDelimiting P code) {stop : List β}
    (hstop : ∀ a, P a → ∀ r r', code a ++ r ≠ stop ++ r') :
    SelfDelimiting (fun as : List α => ∀ a ∈ as, P a) fun as => as.flatMap code ++ stop := by
  intro as bs has hbs r r' heq
  induction as generalizing bs with
  | nil =>
      cases bs with
      | nil => rfl
      | cons b bs =>
          have hb : P b := hbs b (by simp)
          exact absurd (by simpa using heq.symm) (hstop b hb (bs.flatMap code ++ stop ++ r') r)
  | cons a as ih =>
      obtain ⟨ha, has⟩ := List.forall_mem_cons.mp has
      cases bs with
      | nil => exact absurd (by simpa using heq) (hstop a ha (as.flatMap code ++ stop ++ r) r')
      | cons b bs =>
          obtain ⟨hb, hbs'⟩ := List.forall_mem_cons.mp hbs
          simp only [List.flatMap_cons, List.append_assoc] at heq
          obtain rfl := h ha hb heq
          have hrest : as = bs := ih has hbs' (by simpa using heq)
          rw [hrest]

end SelfDelimiting

end Pkix
