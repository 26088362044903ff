import Mathlib.Data.List.Chain
import Pkix.Pem
import Pkix.Proofs.Fallible
import Pkix.Proofs.Text.Base64

/-!
# Armour comes off again

No label and no data that is written holds a hyphen, so each mark is found where it was put. The
lines of the data are not empty, so no gap in them sets headers off, and without their ends they are
the text that was wrapped. What is written under one label is refused under any other one.
-/

namespace Pkix.Pem

/-! ## Marks -/

theorem splitAtFrom_pending (mark : List Char) {pending : List Char} (hne : pending ≠ [])
    (seen after : List Char) :
    splitAtFrom mark pending seen (pending ++ after) = some ([], after) := by
  induction pending generalizing seen with
  | nil => exact absurd rfl hne
  | cons p pending ih =>
      cases pending with
      | nil => simp [splitAtFrom]
      | cons q pending =>
          rw [List.cons_append, splitAtFrom, if_pos rfl]
          · exact ih (List.cons_ne_nil q pending) (p :: seen)
          · simp

/-- A mark is found behind text that does not hold its first character. -/
theorem splitAt_append (mark : String) {m : Char} {ms before : List Char}
    (hmark : mark.toList = m :: ms) (hbefore : m ∉ before) (after : List Char) :
    splitAt mark (before ++ (mark.toList ++ after)) = some (before, after) := by
  rw [splitAt, hmark]
  induction before with
  | nil => exact splitAtFrom_pending _ (List.cons_ne_nil m ms) [] after
  | cons c before ih =>
      have hc : c ≠ m := fun h => hbefore (h ▸ List.mem_cons_self)
      have hrest := ih fun h => hbefore (List.mem_cons_of_mem c h)
      cases ms with
      | nil =>
          rw [List.cons_append, splitAtFrom, if_neg hc, hrest]
          rfl
      | cons m' ms =>
          rw [List.cons_append, splitAtFrom, if_neg hc, hrest]
          · rfl
          · simp

/-- Where a mark is found it stands in the text. -/
theorem eq_of_splitAtFrom {mark pending text before after : List Char} (seen : List Char)
    (hmark : seen.reverse ++ pending = mark)
    (h : splitAtFrom mark pending seen text = some (before, after)) :
    seen.reverse ++ text = before ++ (mark ++ after) := by
  fun_induction splitAtFrom mark pending seen text generalizing before after with
  | case1 => cases h
  | case2 => cases h
  | case3 seen rest p =>
      obtain ⟨rfl, rfl⟩ : [] = before ∧ rest = after := by simpa using h
      rw [← hmark]
      simp
  | case4 seen c rest p _ ih | case6 seen c rest p pending _ _ ih =>
      -- The character that breaks the mark off is passed over with what was seen of it.
      obtain ⟨⟨before', after'⟩, hrest, heq⟩ := Option.map_eq_some_iff.mp h
      obtain ⟨rfl, rfl⟩ : seen.reverse ++ c :: before' = before ∧ after' = after := by
        simpa using heq
      have htext : rest = before' ++ (mark ++ after') := by simpa using ih (by simp) hrest
      rw [htext]
      simp
  | case5 seen rest p pending _ ih =>
      have htext := ih (by simpa using hmark) h
      simpa using htext

theorem eq_of_splitAt {mark : String} {text before after : List Char}
    (h : splitAt mark text = some (before, after)) : text = before ++ (mark.toList ++ after) :=
  eq_of_splitAtFrom [] rfl h

/-! ## Lines -/

/-- Whether a character may stand in data: it is no hyphen, and it is not passed over. -/
def IsData (c : Char) : Prop := c ≠ '-' ∧ isGap c = false ∧ isBlank c = false

instance : DecidablePred IsData := fun c => inferInstanceAs (Decidable (c ≠ '-' ∧ _ ∧ _))

theorem isData_of_mem_encodeChars {octets : Octets} :
    ∀ c ∈ Base64.encodeChars octets, IsData c :=
  Base64.forall_encodeChars (by decide) (by decide) octets

section Wrap

variable {text : List Char}

theorem forall_drop (htext : ∀ c ∈ text, IsData c) (n : Nat) : ∀ c ∈ text.drop n, IsData c :=
  fun c hc => htext c (List.mem_of_mem_drop hc)

theorem forall_take (htext : ∀ c ∈ text, IsData c) (n : Nat) : ∀ c ∈ text.take n, IsData c :=
  fun c hc => htext c (List.mem_of_mem_take hc)

theorem hyphen_not_mem_wrap (htext : ∀ c ∈ text, IsData c) : '-' ∉ wrap text := by
  fun_induction wrap text with
  | case1 => exact List.not_mem_nil
  | case2 c rest ih =>
      obtain ⟨hc, hrest⟩ := List.forall_mem_cons.mp htext
      intro hmem
      rcases List.mem_append.mp hmem with hline | hafter
      · exact (List.forall_mem_cons.mpr ⟨hc, forall_take hrest 63⟩ _ hline).1 rfl
      · have hwrap : '-' ∈ wrap (rest.drop 63) := by simpa using hafter
        exact ih (forall_drop hrest 63) hwrap

/-- Without the line ends a wrapped text is what it was. -/
theorem filter_wrap (htext : ∀ c ∈ text, IsData c) :
    (wrap text).filter (!isBlank ·) = text := by
  fun_induction wrap text with
  | case1 => rfl
  | case2 c rest ih =>
      obtain ⟨hc, hrest⟩ := List.forall_mem_cons.mp htext
      have hline : (c :: rest.take 63).filter (!isBlank ·) = c :: rest.take 63 := by
        rw [List.filter_eq_self]
        intro d hd
        have hdata := List.forall_mem_cons.mpr ⟨hc, forall_take hrest 63⟩ d hd
        rw [hdata.2.2]
        rfl
      have hend : ('\r' :: '\n' :: wrap (rest.drop 63)).filter (!isBlank ·) =
          (wrap (rest.drop 63)).filter (!isBlank ·) := rfl
      rw [List.filter_append, hline, hend, ih (forall_drop hrest 63), List.cons_append,
        List.take_append_drop]

theorem isGap_head_wrap (htext : ∀ c ∈ text, IsData c) :
    ∀ c ∈ (wrap text).head?, isGap c = false := by
  cases text with
  | nil => simp [wrap]
  | cons c rest =>
      intro d hd
      obtain rfl : c = d := by simpa [wrap] using hd
      exact (htext c List.mem_cons_self).2.1

/-- No line is empty: what follows the end of one is data. -/
theorem isChain_wrap (htext : ∀ c ∈ text, IsData c) :
    (wrap text).IsChain fun a b => a = '\n' → isGap b = false := by
  fun_induction wrap text with
  | case1 => exact .nil
  | case2 c rest ih =>
      obtain ⟨hc, hrest⟩ := List.forall_mem_cons.mp htext
      have hline : ∀ a ∈ c :: rest.take 63, a ≠ '\n' := by
        intro a ha hfeed
        have hdata := List.forall_mem_cons.mpr ⟨hc, forall_take hrest 63⟩ a ha
        rw [hfeed] at hdata
        exact absurd hdata.2.1 (by decide)
      have hnext : ∀ b ∈ (wrap (rest.drop 63)).head?, '\n' = '\n' → isGap b = false :=
        fun b hb _ => isGap_head_wrap (forall_drop hrest 63) b hb
      refine List.isChain_append.mpr ⟨?_, ?_, ?_⟩
      · apply List.Pairwise.isChain
        apply List.pairwise_of_forall_mem_list
        intro a ha _ _ hfeed
        exact absurd hfeed (hline a ha)
      · refine List.isChain_cons_cons.mpr ⟨fun hreturn => absurd hreturn (by decide), ?_⟩
        exact List.isChain_cons.mpr ⟨hnext, ih (forall_drop hrest 63)⟩
      · intro a ha _ _ hfeed
        exact absurd hfeed (hline a (List.mem_of_getLast? ha))

/-- A mark with a line feed before a gap is not found in wrapped text. -/
theorem splitAt_wrap (htext : ∀ c ∈ text, IsData c) {mark : String} (ms ms' : List Char)
    {b : Char} (hmark : mark.toList = ms ++ '\n' :: b :: ms') (hgap : isGap b = true) :
    splitAt mark (wrap text) = none := by
  rw [Option.eq_none_iff_forall_ne_some]
  rintro ⟨before, after⟩ hfound
  have hchain := isChain_wrap htext
  rw [eq_of_splitAt hfound, hmark, List.append_assoc, ← List.append_assoc,
    List.cons_append, List.cons_append, List.isChain_append_cons_cons] at hchain
  rw [hchain.2.1 rfl] at hgap
  cases hgap

theorem splitHeaders_wrap (htext : ∀ c ∈ text, IsData c) :
    splitHeaders (wrap text) = ([], wrap text) := by
  have hfeeds : splitAt "\n\n" (wrap text) = none := splitAt_wrap htext [] [] rfl rfl
  have hreturns : splitAt "\r\n\r\n" (wrap text) = none :=
    splitAt_wrap htext ['\r'] ['\n'] rfl rfl
  rw [splitHeaders, hfeeds, hreturns]
  rfl

end Wrap

/-! ## Blocks -/

theorem toList_encode (label : String) (octets : Octets) :
    (encode label octets).toList =
      "-----BEGIN ".toList ++ (label.toList ++ ("-----".toList ++ ('\r' :: '\n' ::
        (wrap (Base64.encodeChars octets) ++ ("-----END ".toList ++ (label.toList ++
          ("-----".toList ++ ['\r', '\n']))))))) := by
  show ("-----BEGIN " ++ label ++ "-----\r\n" ++ String.ofList (wrap (Base64.encodeChars octets)) ++
    "-----END " ++ label ++ "-----\r\n").toList = _
  simp only [String.toList_append, String.toList_ofList, List.append_assoc]
  rfl

theorem dropWhile_isGap_wrap {text : List Char} (htext : ∀ c ∈ text, IsData c)
    (after : List Char) :
    ('\r' :: '\n' :: (wrap text ++ ("-----END ".toList ++ after))).dropWhile isGap =
      wrap text ++ ("-----END ".toList ++ after) := by
  have hstart := isGap_head_wrap htext
  show (wrap text ++ ("-----END ".toList ++ after)).dropWhile isGap = _
  cases hwrap : wrap text with
  | nil => rfl
  | cons c rest =>
      have hc : isGap c = false := hstart c (congrArg List.head? hwrap)
      rw [List.cons_append, List.dropWhile_cons, hc]
      rfl

theorem read?_encode {label : String} (hne : label ≠ "") (hlabel : '-' ∉ label.toList)
    (octets : Octets) : read? (encode label octets) = some ⟨label, octets⟩ := by
  have hdata : ∀ c ∈ Base64.encodeChars octets, IsData c := isData_of_mem_encodeChars
  have hbegin (after) := splitAt_append "-----BEGIN " rfl List.not_mem_nil after
  have hclose (after) := splitAt_append "-----" rfl hlabel after
  have hend (after) := splitAt_append "-----END " rfl (hyphen_not_mem_wrap hdata) after
  simp only [List.nil_append] at hbegin
  rw [read?, toList_encode]
  simp only [hbegin, hclose, dropWhile_isGap_wrap hdata, hend, Option.bind_eq_bind,
    Option.bind_some]
  rw [splitHeaders_wrap hdata, filter_wrap hdata, Base64.decodeChars?_encodeChars]
  have hlabels : label.toList ≠ [] := fun h => hne (String.toList_eq_nil_iff.mp h)
  have hheaders : (lines []).all (·.contains ':') = true := rfl
  refine (if_pos ⟨hlabels, trivial, hheaders⟩).trans ?_
  rw [Option.bind_some, String.ofList_toList]
  rfl

/-- Octets come back from their armour if they are asked for under the same label. -/
theorem decode_encode {label : String} (hne : label ≠ "") (hlabel : '-' ∉ label.toList)
    (octets : Octets) : decode label (encode label octets) = .ok octets := by
  rw [decode, read?_encode hne hlabel]
  exact if_pos rfl

theorem decode_encode_of_ne {label asked : String} (hne : label ≠ "") (hlabel : '-' ∉ label.toList)
    (hasked : asked ≠ label) (octets : Octets) :
    decode asked (encode label octets) = .error (.unexpectedLabel asked label) := by
  rw [decode, read?_encode hne hlabel]
  exact if_neg hasked.symm

/-! ## Lines of a block -/

/-- Whether lines are what a text is broken into: they all have the full width, except that the last
one may have less. -/
inductive BreaksInto (width : Nat) : List Char → List (List Char) → Prop
  | nil : BreaksInto width [] []
  | last {line : List Char} (hpos : 0 < line.length) (hlt : line.length < width) :
      BreaksInto width line [line]
  | full {line rest : List Char} {lines : List (List Char)} (h : line.length = width)
      (hrest : BreaksInto width rest lines) : BreaksInto width (line ++ rest) (line :: lines)

def lineEnd : List Char := ['\r', '\n']

theorem exists_lines_wrap (text : List Char) :
    ∃ lines, BreaksInto 64 text lines ∧ wrap text = lines.flatMap (· ++ lineEnd) := by
  fun_induction wrap text with
  | case1 => exact ⟨[], .nil, rfl⟩
  | case2 c rest ih =>
      by_cases hlength : 63 ≤ rest.length
      · obtain ⟨lines, hlines, hwrap⟩ := ih
        have hline : (c :: rest.take 63).length = 64 := by
          rw [List.length_cons, List.length_take]
          omega
        refine ⟨(c :: rest.take 63) :: lines, ?_, ?_⟩
        · have hfull := BreaksInto.full hline hlines
          rwa [List.cons_append, List.take_append_drop] at hfull
        · rw [hwrap, List.flatMap_cons, lineEnd]
          simp
      · have htake : rest.take 63 = rest := List.take_of_length_le (by omega)
        have hdrop : rest.drop 63 = [] := List.drop_of_length_le (by omega)
        refine ⟨[c :: rest], ?_, ?_⟩
        · apply BreaksInto.last
          · simp
          · rw [List.length_cons]
            omega
        · rw [htake, hdrop, wrap, lineEnd]
          simp

theorem exists_lines_encode (label : String) (octets : Octets) :
    ∃ lines, BreaksInto 64 (Base64.encodeChars octets) lines ∧
      (encode label octets).toList =
        (("-----BEGIN " ++ label ++ "-----").toList ::
          (lines ++ [("-----END " ++ label ++ "-----").toList])).flatMap (· ++ lineEnd) := by
  obtain ⟨lines, hlines, hwrap⟩ := exists_lines_wrap (Base64.encodeChars octets)
  refine ⟨lines, hlines, ?_⟩
  rw [toList_encode, hwrap, List.flatMap_cons, List.flatMap_append, List.flatMap_singleton]
  simp [lineEnd]

/-- The armour of octets under either label is a series of lines: the two that carry the label, and
between them the Base64 form of the octets in lines of sixty-four. The octets come back from it for
who asks for that label, and are refused to who asks for another one. -/
theorem decode_encode_labels {label : String} (h : label ∈ [certificateLabel, crlLabel])
    (octets : Octets) :
    (∃ lines, BreaksInto 64 (Base64.encodeChars octets) lines ∧
      (encode label octets).toList =
        (("-----BEGIN " ++ label ++ "-----").toList ::
          (lines ++ [("-----END " ++ label ++ "-----").toList])).flatMap (· ++ lineEnd)) ∧
    decode label (encode label octets) = .ok octets ∧
    ∀ asked, asked ≠ label →
      decode asked (encode label octets) = .error (.unexpectedLabel asked label) := by
  have hlabels : ∀ l ∈ [certificateLabel, crlLabel], l ≠ "" ∧ '-' ∉ l.toList := by decide
  obtain ⟨hne, hhyphen⟩ := hlabels label h
  exact ⟨exists_lines_encode label octets, decode_encode hne hhyphen octets,
    fun asked hasked => decode_encode_of_ne hne hhyphen hasked octets⟩

/-- More octets than one line has room for, asked for under both labels, and no octets at all. -/
theorem decode_encode_labels_swapped :
    let octets : Octets := List.replicate 49 0xff
    decode crlLabel (encode crlLabel octets) = .ok octets ∧
      decode certificateLabel (encode crlLabel octets) =
        .error (.unexpectedLabel certificateLabel crlLabel) ∧
      decode certificateLabel (encode certificateLabel []) = .ok [] := by
  intro octets
  have hcertificate : certificateLabel ∈ [certificateLabel, crlLabel] := by decide
  have hcrl : crlLabel ∈ [certificateLabel, crlLabel] := by decide
  obtain ⟨-, hsame, hother⟩ := decode_encode_labels hcrl octets
  obtain ⟨-, hempty, -⟩ := decode_encode_labels hcertificate []
  exact ⟨hsame, hother certificateLabel (by decide), hempty⟩

end Pkix.Pem
