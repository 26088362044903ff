import Pkix.Octets
import Pkix.Der.Tag

/-!
# Elements

An element is a tag with content octets; encoded, the tag octet and the length of the content go
before the content. Lengths have one written form each. Reading undoes writing whatever follows
(`read?_octets_append`), and accepts nothing that is not written so (`octets_of_read?`). A
constructed content is read as the list of its elements, so that the structures above this module
are read from and written to lists of elements.
-/

namespace Pkix.Der

/-- A tagged value whose content is not looked into. -/
structure Element where
  tag : Tag
  content : Octets
  deriving DecidableEq

/-! ## Lengths -/

/-- The number of octets that a message may have. -/
def maxLength : Nat := 0xfffffff

/-- The octets of a length: one octet below 128, else the count of the octets that follow. -/
def lengthOctets (n : Nat) : Octets :=
  if n < 128 then [UInt8.ofNat n]
  else UInt8.ofNat (128 + (Octets.ofNat n).length) :: Octets.ofNat n

/-- The length at the start of `octets` and what follows it. A length that is indefinite, cut short
or not in its shortest form is refused. -/
def readLength? : Octets → Option (Nat × Octets)
  | [] => none
  | first :: rest =>
    if first.toNat < 128 then some (first.toNat, rest)
    else
      let digits := rest.take (first.toNat - 128)
      let n := Octets.toNat digits
      if digits.length = first.toNat - 128 ∧ digits.head? ≠ some 0 ∧ 128 ≤ n then
        some (n, rest.drop (first.toNat - 128))
      else none

theorem readLength?_length {octets rest : Octets} {n : Nat}
    (h : readLength? octets = some (n, rest)) : rest.length < octets.length := by
  cases octets with
  | nil => simp [readLength?] at h
  | cons first tail =>
    simp only [readLength?] at h
    split at h
    · simp_all
    · split at h
      · simp only [Option.some.injEq, Prod.mk.injEq] at h
        simp only [← h.2, List.length_drop, List.length_cons]
        omega
      · simp at h

theorem readLength?_lengthOctets_append {n : Nat} (h : n ≤ maxLength) (rest : Octets) :
    readLength? (lengthOctets n ++ rest) = some (n, rest) := by
  unfold lengthOctets
  split
  · rename_i small
    have : (UInt8.ofNat n).toNat = n := by
      rw [UInt8.toNat_ofNat']
      omega
    simp [readLength?, this, small]
  · rename_i large
    have hlen : (Octets.ofNat n).length ≤ 4 :=
      Octets.length_ofNat_le (Nat.lt_of_le_of_lt h (by decide))
    have : (UInt8.ofNat (128 + (Octets.ofNat n).length)).toNat =
        128 + (Octets.ofNat n).length := by
      rw [UInt8.toNat_ofNat']
      omega
    simp only [List.cons_append, readLength?, this, Nat.add_sub_cancel_left,
      List.take_left, List.drop_left, Octets.toNat_ofNat]
    rw [if_neg (by omega), if_pos ⟨trivial, Octets.head?_ofNat n, Nat.le_of_not_lt large⟩]

theorem octets_of_readLength? {octets rest : Octets} {n : Nat}
    (h : readLength? octets = some (n, rest)) : octets = lengthOctets n ++ rest := by
  cases octets with
  | nil => simp [readLength?] at h
  | cons first tail =>
    simp only [readLength?] at h
    split at h
    · rename_i small
      simp only [Option.some.injEq, Prod.mk.injEq] at h
      obtain ⟨rfl, rfl⟩ := h
      simp [lengthOctets, small]
    · rename_i large
      split at h
      · rename_i canonical
        obtain ⟨length, head, least⟩ := canonical
        simp only [Option.some.injEq, Prod.mk.injEq] at h
        obtain ⟨rfl, rfl⟩ := h
        rw [lengthOctets, if_neg (by omega), Octets.ofNat_toNat head, length, List.cons_append,
          List.take_append_drop, show 128 + (first.toNat - 128) = first.toNat by omega,
          UInt8.ofNat_toNat]
      · simp at h

namespace Element

def octets (e : Element) : Octets :=
  e.tag.octet :: lengthOctets e.content.length ++ e.content

/-- The element at the start of `octets` and what follows it. -/
def read? : Octets → Option (Element × Octets)
  | [] => none
  | first :: rest => do
    let tag ← Tag.ofOctet? first
    let (n, rest) ← readLength? rest
    let content := rest.take n
    if content.length = n then some (⟨tag, content⟩, rest.drop n) else none

theorem read?_length {octets rest : Octets} {e : Element}
    (h : read? octets = some (e, rest)) : rest.length < octets.length := by
  cases octets with
  | nil => simp [read?] at h
  | cons first tail =>
    simp only [read?, Option.bind_eq_bind, Option.bind_eq_some_iff, Prod.exists] at h
    obtain ⟨tag, -, n, tail', hn, h⟩ := h
    have := readLength?_length hn
    split at h
    · simp only [Option.some.injEq, Prod.mk.injEq] at h
      simp only [← h.2, List.length_drop, List.length_cons]
      omega
    · simp at h

theorem read?_octets_append {e : Element} (h : e.content.length ≤ maxLength) (rest : Octets) :
    read? (e.octets ++ rest) = some (e, rest) := by
  simp [octets, read?, Tag.ofOctet?_octet, readLength?_lengthOctets_append h]

theorem octets_of_read? {octets rest : Octets} {e : Element}
    (h : read? octets = some (e, rest)) : octets = e.octets ++ rest := by
  cases octets with
  | nil => simp [read?] at h
  | cons first tail =>
    simp only [read?, Option.bind_eq_bind, Option.bind_eq_some_iff, Prod.exists] at h
    obtain ⟨tag, htag, n, tail', hn, h⟩ := h
    split at h
    · rename_i length
      simp only [Option.some.injEq, Prod.mk.injEq] at h
      obtain ⟨rfl, rfl⟩ := h
      simp [Element.octets, Tag.octet_of_ofOctet? htag, octets_of_readLength? hn, length]
    · simp at h

/-- The elements that make up `octets`; `none` when they do not end with an element. -/
def elements? (octets : Octets) : Option (List Element) :=
  match octets with
  | [] => some []
  | first :: rest =>
    match h : read? (first :: rest) with
    | none => none
    | some (e, tail) =>
      have := read?_length h
      (elements? tail).map (e :: ·)
termination_by octets.length
decreasing_by exact this

theorem elements?_octets_append {e : Element} (h : e.content.length ≤ maxLength) (rest : Octets) :
    elements? (e.octets ++ rest) = (elements? rest).map (e :: ·) := by
  have hr := read?_octets_append h rest
  have shape : e.octets ++ rest =
      e.tag.octet :: (lengthOctets e.content.length ++ e.content ++ rest) := by
    simp [octets]
  rw [shape] at hr ⊢
  rw [elements?]
  split
  · rename_i none_
    rw [hr] at none_
    cases none_
  · rename_i some_
    rw [hr] at some_
    cases some_
    rfl

theorem elements?_flatMap_octets {elements : List Element}
    (h : ∀ e ∈ elements, e.content.length ≤ maxLength) :
    elements? (elements.flatMap octets) = some elements := by
  induction elements with
  | nil => rw [List.flatMap_nil, elements?]
  | cons e es ih =>
    rw [List.flatMap_cons, elements?_octets_append (h e (by simp)),
      ih fun e he => h e (by simp [he])]
    rfl

theorem octets_of_elements? {octets : Octets} {elements : List Element}
    (h : elements? octets = some elements) : octets = elements.flatMap Element.octets := by
  fun_induction elements? octets generalizing elements with
  | case1 => simp_all
  | case2 => simp_all
  | case3 first rest e tail hr _ ih =>
    obtain ⟨es, hes, rfl⟩ := Option.map_eq_some_iff.1 h
    rw [octets_of_read? hr, ih hes, List.flatMap_cons]

/-- The element with the given tag whose content is a series of elements. -/
def ofElements (tag : Tag) (elements : List Element) : Element :=
  ⟨tag, elements.flatMap octets⟩

/-! ## Sequences -/

def sequence (elements : List Element) : Element :=
  ofElements (.universal .sequence) elements

def sequence? (e : Element) : Option (List Element) :=
  if e.tag = .universal .sequence then elements? e.content else none

/-- A sequence of values of one type. -/
def sequenceOf (toElement : α → Element) (values : List α) : Element :=
  sequence (values.map toElement)

/-- The values of a sequence of one type. -/
def sequenceOf? (ofElement? : Element → Option α) (e : Element) : Option (List α) := do
  (← e.sequence?).mapM ofElement?

/-! ## Context-specific tagging -/

/-- An element under the tag `[n]` in place of its own; the constructed bit stays. -/
def implicit (n : TagNumber) (e : Element) : Element :=
  ⟨.context e.tag.isConstructed n, e.content⟩

/-- The element of the universal type that stands under the implicit tag `[n]`. -/
def implicit? (n : TagNumber) (type : UniversalType) (e : Element) : Option Element :=
  if e.tag = .context type.isConstructed n then some ⟨.universal type, e.content⟩ else none

/-- An element inside another one tagged `[n]`. -/
def explicit (n : TagNumber) (e : Element) : Element :=
  ofElements (.context true n) [e]

/-- The only element inside an element tagged `[n]`. -/
def explicit? (n : TagNumber) (e : Element) : Option Element :=
  if e.tag = .context true n then
    match elements? e.content with
    | some [inner] => some inner
    | _ => none
  else none

/-- Takes the field `[n]` off the front of a list of fields, if it is there. Fields with smaller
context-specific numbers that stand before it are passed over. -/
def takeContext (n : TagNumber) : List Element → Option Element × List Element
  | [] => (none, [])
  | e :: rest =>
    match e.tag with
    | .other .contextSpecific _ k =>
      if k < n then takeContext n rest
      else if k = n then (some e, rest)
      else (none, e :: rest)
    | _ => (none, e :: rest)

/-- Takes the first field off a list of fields if its tag is one of those asked for. -/
def takeTagged (tags : List Tag) : List Element → Option Element × List Element
  | [] => (none, [])
  | e :: rest => if e.tag ∈ tags then (some e, rest) else (none, e :: rest)

end Element

/-! ## Whole messages -/

/-- The octets of a message; `none` when it is too long. -/
def encode? (e : Element) : Option Octets :=
  if e.octets.length ≤ maxLength then some e.octets else none

/-- The value of a message that is one element and nothing else. -/
def decode? (ofElement? : Element → Option α) (octets : Octets) : Option α :=
  if octets.length ≤ maxLength then
    match Element.read? octets with
    | some (e, []) => ofElement? e
    | _ => none
  else none

end Pkix.Der
