import Pkix.Der.Order
import Pkix.Der.Scalar
import Pkix.Error
import Pkix.Proofs.Fallible

/-!
# Reading what was written

The parts of an element that fits do so too, and every reader of this layer undoes its writer on
elements that fit: series of elements, sequences, implicit and explicit tags, optional fields, whole
messages. Encodings of different elements differ, whatever their lengths.
-/

namespace Pkix.Der

/-! ## Encodings determine their elements -/

theorem length_ofNat_mono {m n : Nat} (h : m ≤ n) :
    (Octets.ofNat m).length ≤ (Octets.ofNat n).length := by
  induction n using Nat.strongRecOn generalizing m with
  | ind n ih =>
      by_cases hm : m = 0
      · simp [hm]
      · rw [Octets.ofNat_of_pos (by omega : 0 < m), Octets.ofNat_of_pos (by omega : 0 < n)]
        have hdiv := ih (n / 256) (by omega) (Nat.div_le_div_right h : m / 256 ≤ n / 256)
        simpa using hdiv

theorem length_lengthOctets_mono {m n : Nat} (h : m ≤ n) :
    (lengthOctets m).length ≤ (lengthOctets n).length := by
  have hlen := length_ofNat_mono h
  unfold lengthOctets
  split <;> split
  · simp
  · simp
  · omega
  · simpa using hlen

theorem Tag.octet_injective : Function.Injective octet := fun t u h => by
  simpa [ofOctet?_octet] using congrArg ofOctet? h

namespace Element

/-- Two encodings of one length have contents of one length, so they differ in tag or content. -/
theorem octets_injective : Function.Injective octets := by
  intro e e' h
  simp only [octets, List.cons_append, List.cons.injEq] at h
  obtain ⟨htag, htail⟩ := h
  have hlen := congrArg List.length htail
  simp only [List.length_append] at hlen
  have hcontent : e.content.length = e'.content.length := by
    rcases Nat.lt_trichotomy e.content.length e'.content.length with hlt | heq | hgt
    · have hmono := length_lengthOctets_mono (Nat.le_of_lt hlt)
      omega
    · exact heq
    · have hmono := length_lengthOctets_mono (Nat.le_of_lt hgt)
      omega
  rw [hcontent] at htail
  have heq := List.append_cancel_left htail
  have hread := Tag.octet_injective htag
  cases e
  cases e'
  simp_all

/-! ## Series of elements -/

theorem elements?_ofElements {tag : Tag} {elements : List Element}
    (h : (ofElements tag elements).Fits) :
    elements? (ofElements tag elements).content = some elements :=
  elements?_flatMap_octets fun _ he => h.of_mem he

/-! ## Sequences -/

@[simp] theorem tag_sequence (elements : List Element) :
    (sequence elements).tag = .universal .sequence := rfl

theorem sequence?_sequence {elements : List Element} (h : (sequence elements).Fits) :
    (sequence elements).sequence? = some elements := by
  rw [sequence?, if_pos (tag_sequence elements)]
  exact elements?_ofElements h

/-- A sequence of values comes back if every value does. -/
theorem sequenceOf?_sequenceOf {α : Type} {toElement : α → Element}
    {ofElement? : Element → Option α} {values : List α}
    (h : (sequenceOf toElement values).Fits)
    (hread : ∀ a ∈ values, (toElement a).Fits → ofElement? (toElement a) = some a) :
    (sequenceOf toElement values).sequenceOf? ofElement? = some values := by
  rw [sequenceOf?, sequenceOf, sequence?_sequence h]
  exact mapM_map_eq_pure fun a ha => hread a ha (h.of_mem (List.mem_map.mpr ⟨a, ha, rfl⟩))

/-- What is read from a sequence is read from its members. -/
theorem exists_of_mem_sequenceOf? {α : Type} {ofElement? : Element → Option α} {e : Element}
    {values : List α} (h : e.sequenceOf? ofElement? = some values) {a : α} (ha : a ∈ values) :
    ∃ member, ofElement? member = some a := by
  obtain ⟨members, -, hmembers⟩ := Option.bind_eq_some_iff.mp h
  obtain ⟨member, -, hmember⟩ := exists_of_mem_right (mapM_eq_some_iff.mp hmembers) ha
  exact ⟨member, hmember⟩

/-- A sequence of values is read only if every value is. -/
theorem exists_of_sequenceOf?_sequenceOf {α β : Type} {toElement : α → Element}
    {ofElement? : Element → Option β} {values : List α} {back : List β}
    (hfits : (sequenceOf toElement values).Fits)
    (h : (sequenceOf toElement values).sequenceOf? ofElement? = some back) {a : α}
    (ha : a ∈ values) : ∃ b, ofElement? (toElement a) = some b := by
  rw [sequenceOf?, sequenceOf, sequence?_sequence hfits] at h
  have hmember : toElement a ∈ values.map toElement := List.mem_map.mpr ⟨a, ha, rfl⟩
  obtain ⟨b, -, hb⟩ := exists_of_mem_left (mapM_eq_some_iff.mp h) hmember
  exact ⟨b, hb⟩

/-! ## Tags -/

@[simp] theorem val_tagNumber (n : Nat) :
    Fin.val (no_index (@OfNat.ofNat TagNumber n (TagNumber.instOfNat n))) = n % 31 := rfl

@[simp] theorem tag_implicit (n : TagNumber) (e : Element) :
    (implicit n e).tag = .context e.tag.isConstructed n := rfl

@[simp] theorem tag_explicit (n : TagNumber) (e : Element) :
    (explicit n e).tag = .context true n := rfl

theorem implicit?_implicit {n : TagNumber} {type : UniversalType} {e : Element}
    (h : e.tag = .universal type) : implicit? n type (implicit n e) = some e := by
  have htag : (implicit n e).tag = .context type.isConstructed n := by rw [tag_implicit, h]; rfl
  rw [implicit?, if_pos htag, ← h]
  rfl

theorem Fits.of_explicit {n : TagNumber} {e : Element} (h : (explicit n e).Fits) : e.Fits :=
  Fits.of_mem h List.mem_cons_self

theorem explicit?_explicit {n : TagNumber} {e : Element} (h : (explicit n e).Fits) :
    explicit? n (explicit n e) = some e := by
  have hread : elements? (explicit n e).content = some [e] := elements?_ofElements h
  rw [explicit?, if_pos (tag_explicit n e), hread]

@[simp] theorem tag_octetString (octets : Octets) :
    (octetString octets).tag = .universal .octetString := rfl

@[simp] theorem octetString?_octetString (octets : Octets) :
    (octetString octets).octetString? = some octets := rfl

/-! ## Optional fields -/

/-- Taking the field `[n]` off finds it where it was written: in front, before fields with larger
numbers. -/
theorem takeContext_option {α : Type} {n : TagNumber} {field : α → Element} {value : Option α}
    {rest : List Element} (hfield : ∀ a, ∃ c, (field a).tag = .context c n)
    (hrest : ∀ e ∈ rest, ∃ c k, e.tag = .context c k ∧ n < k) :
    takeContext n ((value.map field).toList ++ rest) = (value.map field, rest) := by
  cases value with
  | some a =>
      obtain ⟨c, hc⟩ := hfield a
      simp [takeContext, hc]
  | none =>
      cases rest with
      | nil => rfl
      | cons e rest =>
          obtain ⟨c, k, hk, hlt⟩ := hrest e List.mem_cons_self
          simp [takeContext, hk, Fin.not_lt.mpr (Fin.le_of_lt hlt), Fin.ne_of_gt hlt]

/-- Taking the field `[n]` off finds it before an element of a universal type. -/
theorem takeContext_append_universal {n : TagNumber} {field : Option Element} {e : Element}
    {type : UniversalType} {rest : List Element}
    (hfield : ∀ f ∈ field, ∃ c, f.tag = .context c n) (he : e.tag = .universal type) :
    takeContext n (field.toList ++ e :: rest) = (field, e :: rest) := by
  cases field with
  | none => simp [takeContext, he]
  | some f =>
      obtain ⟨c, hc⟩ := hfield f rfl
      simp [takeContext, hc]

/-- Three fields that were written in the order of their numbers are taken off in that order. -/
theorem takeContext_three {α β γ : Type} {l m n : TagNumber} (hlm : l < m) (hmn : m < n)
    {first : α → Element} {second : β → Element} {third : γ → Element}
    (hfirst : ∀ a, ∃ c, (first a).tag = .context c l)
    (hsecond : ∀ b, ∃ c, (second b).tag = .context c m)
    (hthird : ∀ g, ∃ c, (third g).tag = .context c n) (a : Option α) (b : Option β)
    (g : Option γ) :
    takeContext l ((a.map first).toList ++ (b.map second).toList ++ (g.map third).toList) =
        (a.map first, (b.map second).toList ++ (g.map third).toList) ∧
      takeContext m ((b.map second).toList ++ (g.map third).toList) =
          (b.map second, (g.map third).toList) ∧
        takeContext n (g.map third).toList = (g.map third, []) := by
  have hlast : ∀ e ∈ (g.map third).toList, ∃ c, e.tag = .context c n := by
    intro e he
    obtain ⟨g', -, rfl⟩ : ∃ g', g = some g' ∧ third g' = e := by simpa using he
    exact hthird g'
  have hmiddle : ∀ e ∈ (b.map second).toList, ∃ c, e.tag = .context c m := by
    intro e he
    obtain ⟨b', -, rfl⟩ : ∃ b', b = some b' ∧ second b' = e := by simpa using he
    exact hsecond b'
  refine ⟨?_, ?_, ?_⟩
  · rw [List.append_assoc]
    refine takeContext_option hfirst fun e he => ?_
    rcases List.mem_append.mp he with he | he
    · obtain ⟨c, hc⟩ := hmiddle e he
      exact ⟨c, m, hc, hlm⟩
    · obtain ⟨c, hc⟩ := hlast e he
      exact ⟨c, n, hc, Fin.lt_trans hlm hmn⟩
  · refine takeContext_option hsecond fun e he => ?_
    obtain ⟨c, hc⟩ := hlast e he
    exact ⟨c, n, hc, hmn⟩
  · rw [← List.append_nil (Option.toList _)]
    exact takeContext_option hthird (by simp)

/-- An optional field with an implicit tag is read as the element under the tag. -/
theorem mapM_implicit {α β : Type} {n : TagNumber} {type : UniversalType} {field : α → Element}
    (htag : ∀ a, (field a).tag = .universal type) (read : Element → Option β) (value : Option α) :
    ((value.map fun a => implicit n (field a)).mapM fun e => do read (← e.implicit? n type)) =
      value.mapM fun a => read (field a) :=
  option_mapM_map fun a _ => by rw [implicit?_implicit (htag a)]; rfl

theorem mapM_explicit {α β : Type} {n : TagNumber} {field : α → Element} {value : Option α}
    (hfits : ∀ a ∈ value, (explicit n (field a)).Fits) (read : Element → Option β) :
    ((value.map fun a => explicit n (field a)).mapM fun e => do read (← e.explicit? n)) =
      value.mapM fun a => read (field a) :=
  option_mapM_map fun a ha => by rw [explicit?_explicit (hfits a ha)]; rfl

/-- Taking a field off by its tags finds it where it was written: in front, before a field with
another tag. -/
theorem takeTagged_option {α : Type} {tags : List Tag} {field : α → Element} {value : Option α}
    {rest : List Element} (hfield : ∀ a, (field a).tag ∈ tags)
    (hrest : ∀ e ∈ rest, e.tag ∉ tags) :
    takeTagged tags ((value.map field).toList ++ rest) = (value.map field, rest) := by
  cases value with
  | some a => simp [takeTagged, hfield a]
  | none =>
      cases rest with
      | nil => rfl
      | cons e rest => simp [takeTagged, hrest e List.mem_cons_self]

end Element

end Der

/-! ## Messages -/

namespace Message

open Der

/-- A message is written exactly if its octets are within the limit. -/
theorem write_eq_ok_iff {e : Element} {octets : Octets} :
    write e = .ok octets ↔ e.octets.length ≤ maxLength ∧ octets = e.octets := by
  rw [write, Error.ifNone_eq_ok_iff, encode?]
  by_cases h : e.octets.length ≤ maxLength <;> simp [h, eq_comm]

/-- What was written is read as its element is. -/
theorem read_eq_of_write {α : Type} {ofElement? : Element → Option α} {e : Element}
    {octets : Octets} (h : write e = .ok octets) :
    read ofElement? octets = Error.decoding.ifNone (ofElement? e) := by
  obtain ⟨hlength, rfl⟩ := write_eq_ok_iff.mp h
  have hfits := Element.fits_of_octets hlength
  have hwhole : Element.read? e.octets = some (e, []) := by
    simpa using Element.read?_octets_append hfits []
  rw [read, decode?, if_pos hlength, hwhole]

/-- A message is read as the value that its element is read as. -/
theorem read_of_write {α : Type} {ofElement? : Element → Option α} {e : Element} {a : α}
    {octets : Octets} (h : write e = .ok octets) (hread : e.Fits → ofElement? e = some a) :
    read ofElement? octets = .ok a := by
  rw [read_eq_of_write h, Error.ifNone_eq_ok_iff]
  exact hread (Element.fits_of_octets (write_eq_ok_iff.mp h).1)

/-- A message is read as a value exactly if it is the one that an element of that value is written
as. -/
theorem read_eq_ok_iff {α : Type} {ofElement? : Element → Option α} {octets : Octets} {a : α} :
    read ofElement? octets = .ok a ↔ ∃ e, write e = .ok octets ∧ ofElement? e = some a := by
  constructor
  · intro h
    rw [read, Error.ifNone_eq_ok_iff, decode?] at h
    split at h
    · rename_i hlength
      split at h
      · rename_i e he
        have hoctets : octets = e.octets := by simpa using Element.octets_of_read? he
        exact ⟨e, write_eq_ok_iff.mpr ⟨hoctets ▸ hlength, hoctets⟩, h⟩
      · cases h
    · cases h
  · rintro ⟨e, hwrite, he⟩
    exact read_of_write hwrite fun _ => he

/-- Reading a message fails in one way only. -/
theorem eq_decoding_of_read {α : Type} {ofElement? : Element → Option α} {octets : Octets}
    {err : Error} (h : read ofElement? octets = .error err) : err = .decoding :=
  (Error.ifNone_eq_error_iff.mp h).2

theorem exists_of_read {α : Type} {ofElement? : Element → Option α} {octets : Octets} {a : α}
    (h : read ofElement? octets = .ok a) : ∃ e, ofElement? e = some a := by
  obtain ⟨e, -, he⟩ := read_eq_ok_iff.mp h
  exact ⟨e, he⟩

end Message

end Pkix
