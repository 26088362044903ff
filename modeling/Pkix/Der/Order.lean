import Pkix.Der.Element

/-!
# The order of elements

Elements are ordered by their tags, then by the octets of their lengths, then by their contents. An
element *fits* when its content is no longer than a message may be; elements that fit end where they
do, whatever follows, so that their order is the one of their encodings.
-/

namespace Pkix

namespace Octets

theorem ne_of_lt {x y : Octets} (h : x < y) : x ≠ y := by
  rintro rfl
  exact List.lt_irrefl _ h

theorem compare_eq_lt_iff {x y : Octets} : compare x y = .lt ↔ x < y := by
  induction x generalizing y with
  | nil => cases y <;> simp
  | cons b x ih =>
    cases y with
    | nil => simp
    | cons c y =>
      rw [List.compare_cons_cons, Ordering.then_eq_lt, ih, List.cons_lt_cons_iff,
        Std.compare_eq_lt, Std.compare_eq_iff_eq]

/-- Octet strings are ordered by their beginnings, if these end where they do, and then by what
follows. -/
theorem compare_append {x x' y y' : Octets}
    (h : ∀ rest rest', x ++ rest = x' ++ rest' → x = x') :
    compare (x ++ y) (x' ++ y') = (compare x x').then (compare y y') := by
  induction x generalizing x' with
  | nil =>
    obtain rfl := h x' [] (by simp)
    rfl
  | cons b x ih =>
    cases x' with
    | nil => simpa using h [] (b :: x) (by simp)
    | cons b' x' =>
      rw [List.cons_append, List.cons_append, List.compare_cons_cons, List.compare_cons_cons,
        Ordering.then_assoc]
      by_cases hb : b = b'
      · subst hb
        rw [ih fun rest rest' heq =>
          (List.cons.inj (h rest rest' (by rw [List.cons_append, heq, List.cons_append]))).2]
      · have hne : compare b b' ≠ .eq := mt Std.compare_eq_iff_eq.mp hb
        cases hcompare : compare b b' with
        | eq => exact absurd hcompare hne
        | lt => rfl
        | gt => rfl

end Octets

namespace Der

theorem lengthOctets_append_inj {m n : Nat} {rest rest' : Octets} (hm : m ≤ maxLength)
    (hn : n ≤ maxLength) (h : lengthOctets m ++ rest = lengthOctets n ++ rest') : m = n := by
  have hread := congrArg readLength? h
  rw [readLength?_lengthOctets_append hm, readLength?_lengthOctets_append hn] at hread
  simp_all

namespace Element

/-! ## Elements that fit -/

/-- Whether the content of an element is short enough to be read. -/
def Fits (e : Element) : Prop := e.content.length ≤ maxLength

instance : DecidablePred Fits := fun e => inferInstanceAs (Decidable (e.content.length ≤ maxLength))

theorem content_length_lt (e : Element) : e.content.length < e.octets.length := by
  simp only [octets, List.length_cons, List.length_append]
  omega

theorem fits_of_octets {e : Element} (h : e.octets.length ≤ maxLength) : e.Fits :=
  Nat.le_trans (Nat.le_of_lt e.content_length_lt) h

/-- Elements that fit end where they do, whatever follows. -/
theorem octets_append_inj {e e' : Element} {rest rest' : Octets} (h : e.Fits) (h' : e'.Fits)
    (heq : e.octets ++ rest = e'.octets ++ rest') : e = e' ∧ rest = rest' := by
  have hread := congrArg read? heq
  rw [read?_octets_append h, read?_octets_append h'] at hread
  simpa using hread

/-- The members of a series that fits do so too. -/
theorem Fits.of_mem {tag : Tag} {elements : List Element} (h : (ofElements tag elements).Fits)
    {e : Element} (he : e ∈ elements) : e.Fits := by
  apply fits_of_octets
  refine Nat.le_trans ?_ h
  rw [ofElements, List.flatMap_def]
  exact (List.sublist_flatten_of_mem (List.mem_map.mpr ⟨e, he, rfl⟩)).length_le

/-! ## Comparing -/

/-- How an element and another one are ordered: by the tag, then by the octets of the length, then
by the content. -/
def compare (e e' : Element) : Ordering :=
  (Ord.compare e.tag.octet e'.tag.octet).then <|
    (Ord.compare (lengthOctets e.content.length) (lengthOctets e'.content.length)).then <|
      Ord.compare e.content e'.content

theorem compare_eq {e e' : Element} (h : e.Fits) (h' : e'.Fits) :
    e.compare e' = Ord.compare e.octets e'.octets := by
  have hlengths : ∀ rest rest', lengthOctets e.content.length ++ rest =
      lengthOctets e'.content.length ++ rest' →
        lengthOctets e.content.length = lengthOctets e'.content.length :=
    fun _ _ heq => congrArg lengthOctets (lengthOctets_append_inj h h' heq)
  rw [octets, octets, List.cons_append, List.cons_append, List.compare_cons_cons,
    Octets.compare_append hlengths, compare]

end Element

end Der

end Pkix
