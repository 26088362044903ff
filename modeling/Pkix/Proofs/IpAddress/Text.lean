import Pkix.Proofs.Fallible
import Pkix.Proofs.IpAddress
import Pkix.Proofs.Text.Plain

/-!
# Addresses come back from their texts

The text of an address is read as that address, so different addresses have different texts. Where
groups are left out of a text, they are zeros, and there are as many of them as the rest leaves room
for.
-/

namespace Pkix.IpAddress

/-! ## Version 4 -/

/-- The digits of an octet in the text of an address. -/
abbrev octetDigits (b : UInt8) : List Char := Nat.toDigits 10 b.toNat

theorem parseDecimal?_octetDigits (b : UInt8) : parseDecimal? (octetDigits b) = some b := by
  have hpos : 0 < (octetDigits b).length := Nat.length_toDigits_pos
  have hlength : (octetDigits b).length ≤ 3 :=
    (Nat.length_toDigits_le_iff (by decide) (by decide)).mpr (Nat.lt_trans b.toNat_lt (by decide))
  have hzero (h : (octetDigits b).head? = some '0') : (octetDigits b).length = 1 := by
    rw [octetDigits, toDigits_eq_of_head? h]
    rfl
  have hdigits : (octetDigits b).all Char.isDigit = true :=
    List.all_eq_true.mpr fun c hc => Nat.isDigit_of_mem_toDigits (by decide) (by decide) hc
  have hvalue : (octetDigits b).foldl (fun n c => 10 * n + (c.toNat - 48)) 0 = b.toNat :=
    Nat.ofDigitChars_ten_toDigits
  have hform : ¬ ((octetDigits b).length = 0 ∨ 3 < (octetDigits b).length ∨
      ((octetDigits b).head? = some '0' ∧ 1 < (octetDigits b).length)) := by
    rintro (hempty | hlong | ⟨hhead, hlong⟩)
    · omega
    · omega
    · rw [hzero hhead] at hlong
      omega
  rw [parseDecimal?, if_neg hform, if_pos hdigits, hvalue]
  simp [b.toNat_lt]

theorem dottedQuad_eq (octets : List UInt8) :
    dottedQuad octets = ".".intercalate ((octets.map (·.toNat)).map toString) := by
  simp [dottedQuad, Function.comp_def]

theorem parseQuad?_dottedQuad (a b c d : UInt8) :
    parseQuad? (dottedQuad [a, b, c, d]).toList = some #v[a, b, c, d] := by
  have hsplit : (dottedQuad [a, b, c, d]).toList.splitOn '.' = [a, b, c, d].map octetDigits := by
    rw [dottedQuad_eq, splitOn_intercalate_toString (by simp)]
    rfl
  simp [parseQuad?, hsplit, parseDecimal?_octetDigits]

/-! ## Groups -/

/-- The digits of a group in the text of an address. -/
abbrev groupDigits (g : UInt16) : List Char := Nat.toDigits 16 g.toNat

theorem colon_not_mem_groupDigits (g : UInt16) : ':' ∉ groupDigits g :=
  not_mem_toDigits (by decide) (by decide) (by decide)

theorem parseGroup?_groupDigits (g : UInt16) : parseGroup? (groupDigits g) = some g := by
  have hpos : (groupDigits g).length ≠ 0 := Nat.ne_of_gt Nat.length_toDigits_pos
  have hle : (groupDigits g).length ≤ 4 :=
    (Nat.length_toDigits_le_iff (by decide) (by decide)).mpr g.toNat_lt
  have hvalue : ∀ d < 16, hexValue? d.digitChar = some d := by decide
  have hread : (groupDigits g).foldlM (fun n c => do return 16 * n + (← hexValue? c)) 0 =
      some g.toNat :=
    foldlM_toDigits (by decide) (fun n d hd => by simp [hvalue d hd]) g.toNat
  rw [parseGroup?, if_neg (by omega), hread]
  simp

theorem mapM_parseGroup? (groups : List UInt16) :
    (groups.map groupDigits).mapM parseGroup? = some groups :=
  mapM_map_eq_pure fun g _ => parseGroup?_groupDigits g

theorem toList_colonGroups (groups : List UInt16) :
    (colonGroups groups).toList = [':'].intercalate (groups.map groupDigits) := by
  simp [colonGroups, String.toList_intercalate, Function.comp_def]

/-- A text without a point is no version 4 address. -/
theorem parseQuad?_eq_none {text : List Char} (h : '.' ∉ text) : parseQuad? text = none := by
  rw [parseQuad?, List.splitOn_eq_singleton h]
  cases hparse : parseDecimal? text <;> simp [hparse]

theorem parseGroups?_groupDigits (groups : List UInt16) :
    parseGroups? (groups.map groupDigits) = some groups := by
  induction groups with
  | nil => rfl
  | cons g groups ih =>
      cases groups with
      | nil =>
          have hpoint : '.' ∉ groupDigits g :=
            not_mem_toDigits (by decide) (by decide) (by decide)
          simp [parseGroups?, parseQuad?_eq_none hpoint, parseGroup?_groupDigits]
      | cons g' groups =>
          rw [List.map_cons] at ih
          simp [parseGroups?, parseGroup?_groupDigits, ih]

theorem colonParts_colonGroups (groups : List UInt16) :
    colonParts (colonGroups groups).toList = groups.map groupDigits := by
  rw [toList_colonGroups]
  cases groups with
  | nil => rfl
  | cons g groups =>
      have hne : ([':'].intercalate ((g :: groups).map groupDigits)).isEmpty = false := by
        cases groups <;> simp [Nat.toDigits_ne_nil]
      rw [colonParts, hne]
      exact List.splitOn_intercalate ':'
        (List.forall_mem_map.mpr fun g _ => colon_not_mem_groupDigits g) (by simp)

/-! ## The gap -/

theorem splitGap?_append {digits : List Char} (h : ':' ∉ digits) (rest : List Char) :
    splitGap? (digits ++ rest) =
      (splitGap? rest).map fun (before, after) => (digits ++ before, after) := by
  induction digits with
  | nil => simp
  | cons c digits ih =>
      obtain ⟨hc, hdigits⟩ : ':' ≠ c ∧ ':' ∉ digits := by simpa using h
      rw [List.cons_append, splitGap?, ih hdigits]
      · simp [Function.comp_def]
      · rintro _ rfl
        exact absurd rfl hc

theorem splitGap?_colon {text : List Char} (h : text.head? ≠ some ':') :
    splitGap? (':' :: text) =
      (splitGap? text).map fun (before, after) => (':' :: before, after) := by
  rw [splitGap?]
  rintro after - rfl
  exact h rfl

theorem colonGroups_cons_cons (g h : UInt16) (groups : List UInt16) :
    (colonGroups (g :: h :: groups)).toList =
      groupDigits g ++ ':' :: (colonGroups (h :: groups)).toList := by
  simp [toList_colonGroups, List.intercalate_cons_cons]

theorem head?_colonGroups (g : UInt16) (groups : List UInt16) (rest : List Char) :
    ((colonGroups (g :: groups)).toList ++ rest).head? ≠ some ':' := by
  obtain ⟨c, cs, hdigits⟩ :=
    List.exists_cons_of_ne_nil (Nat.toDigits_ne_nil (n := g.toNat) (b := 16))
  obtain ⟨tail, htail⟩ : ∃ tail, (colonGroups (g :: groups)).toList = groupDigits g ++ tail := by
    cases groups with
    | nil => exact ⟨[], by simp [toList_colonGroups]⟩
    | cons h groups => exact ⟨_, colonGroups_cons_cons g h groups⟩
  have hmem : c ∈ groupDigits g := by simp [groupDigits, hdigits]
  rw [htail, groupDigits, hdigits]
  simpa using ne_of_mem_of_not_mem hmem (colon_not_mem_groupDigits g)

/-- No gap begins among the groups of a text. -/
theorem splitGap?_colonGroups (g : UInt16) (groups : List UInt16) (rest : List Char) :
    splitGap? ((colonGroups (g :: groups)).toList ++ rest) =
      (splitGap? rest).map fun (before, after) =>
        ((colonGroups (g :: groups)).toList ++ before, after) := by
  induction groups generalizing g with
  | nil => simpa [toList_colonGroups] using splitGap?_append (colon_not_mem_groupDigits g) rest
  | cons h groups ih =>
      rw [colonGroups_cons_cons, List.append_assoc, List.cons_append,
        splitGap?_append (colon_not_mem_groupDigits g), splitGap?_colon (head?_colonGroups h _ _),
        ih h]
      simp [Function.comp_def]

theorem splitGap?_gap (groups : List UInt16) (after : List Char) :
    splitGap? ((colonGroups groups).toList ++ ':' :: ':' :: after) =
      some ((colonGroups groups).toList, after) := by
  cases groups with
  | nil => rfl
  | cons g groups => simp [splitGap?_colonGroups, splitGap?]

theorem splitGap?_eq_none (groups : List UInt16) :
    splitGap? (colonGroups groups).toList = none := by
  cases groups with
  | nil => rfl
  | cons g groups => simpa [splitGap?] using splitGap?_colonGroups g groups []

/-! ## The longest run of zeros -/

/-- Every group of the run is zero. -/
def IsZeroRun (groups : List UInt16) (run : ZeroRun) : Prop :=
  ∃ before after,
    groups = before ++ List.replicate run.length 0 ++ after ∧ before.length = run.start

/-- The run is what `seen` ends with; an empty run ends any groups. -/
def EndsWithRun (seen : List UInt16) (run : ZeroRun) : Prop :=
  ∃ before,
    seen = before ++ List.replicate run.length 0 ∧ (run.length ≠ 0 → before.length = run.start)

theorem EndsWithRun.extend {seen : List UInt16} {run : ZeroRun} (h : EndsWithRun seen run) :
    EndsWithRun (seen ++ [0]) (run.extend seen.length) ∧
      0 < (run.extend seen.length).length := by
  obtain ⟨before, rfl, hstart⟩ := h
  by_cases hlength : run.length = 0
  · refine ⟨⟨before, ?_⟩, ?_⟩ <;> simp [ZeroRun.extend, hlength]
  · refine ⟨⟨before, ?_⟩, ?_⟩ <;>
      simp [ZeroRun.extend, hlength, hstart hlength, List.replicate_succ']

theorem EndsWithRun.isZeroRun {seen : List UInt16} {run : ZeroRun} (h : EndsWithRun seen run)
    (hpos : 0 < run.length) : IsZeroRun seen run := by
  obtain ⟨before, hseen, hstart⟩ := h
  exact ⟨before, [], by simpa using hseen, hstart (Nat.ne_of_gt hpos)⟩

theorem IsZeroRun.append {seen : List UInt16} {run : ZeroRun} (h : IsZeroRun seen run)
    (rest : List UInt16) : IsZeroRun (seen ++ rest) run := by
  obtain ⟨before, after, rfl, hstart⟩ := h
  exact ⟨before, after ++ rest, by simp, hstart⟩

/-- The best run among the groups seen and the run that they end with stay what they are, one group
after the other. -/
theorem isZeroRun_longestRunFrom {seen rest : List UInt16} {current best : ZeroRun}
    (hcurrent : EndsWithRun seen current) (hbest : IsZeroRun seen best) :
    IsZeroRun (seen ++ rest) (longestRunFrom seen.length current best rest) := by
  induction rest generalizing seen current best with
  | nil => simpa [longestRunFrom] using hbest
  | cons g rest ih =>
      rw [List.append_cons, longestRunFrom]
      split
      · rename_i hzero
        subst hzero
        obtain ⟨hcurrent, hpos⟩ := hcurrent.extend
        have hlength : seen.length + 1 = (seen ++ [0]).length := by simp
        rw [hlength]
        apply ih hcurrent
        split
        · exact hcurrent.isZeroRun hpos
        · exact hbest.append [0]
      · have hlength : seen.length + 1 = (seen ++ [g]).length := by simp
        rw [hlength]
        exact ih ⟨seen ++ [g], by simp, by simp⟩ (hbest.append [g])

theorem isZeroRun_longestRun (groups : List UInt16) : IsZeroRun groups (longestRun groups) :=
  @isZeroRun_longestRunFrom [] groups _ _ ⟨[], rfl, by simp⟩ ⟨[], [], rfl, rfl⟩

/-! ## Version 6 -/

theorem parseV6?_colonGroups {groups : List UInt16} (h : groups.length = 8) :
    parseV6? (colonGroups groups).toList = some groups := by
  simp [parseV6?, splitGap?_eq_none, colonParts_colonGroups, parseGroups?_groupDigits, h]

theorem parseV6?_gap {before after : List UInt16} {n : Nat} (hpos : 0 < n)
    (h : before.length + n + after.length = 8) :
    parseV6? (colonGroups before ++ "::" ++ colonGroups after).toList =
      some (before ++ List.replicate n 0 ++ after) := by
  have hsplit : splitGap? (colonGroups before ++ "::" ++ colonGroups after).toList =
      some ((colonGroups before).toList, (colonGroups after).toList) := by
    simpa using splitGap?_gap before (colonGroups after).toList
  have hle : before.length + after.length ≤ 7 := by omega
  have hgap : 8 - before.length - after.length = n := by omega
  rw [parseV6?, hsplit]
  simp only [colonParts_colonGroups, mapM_parseGroup?, parseGroups?_groupDigits,
    Option.bind_eq_bind, Option.bind_some, if_pos hle, hgap]

theorem colon_not_mem_dottedQuad (a b c d : UInt8) :
    ':' ∉ (dottedQuad [a, b, c, d]).toList := by
  have hcolon (x : UInt8) : ':' ∉ octetDigits x :=
    not_mem_toDigits (by decide) (by decide) (by decide)
  rw [dottedQuad_eq, toList_intercalate_toString]
  simp [List.intercalate_cons_cons, hcolon]

/-- The last two groups may be written as an address of version 4. -/
theorem parseV6?_mapped {quad : List Char} (hcolon : ':' ∉ quad) {a b c d : UInt8}
    (h : parseQuad? quad = some #v[a, b, c, d]) :
    parseV6? ("::ffff:".toList ++ quad) =
      some [0, 0, 0, 0, 0, 0xffff, groupOf a b, groupOf c d] := by
  have hsplit : splitGap? ("::ffff:".toList ++ quad) = some ([], "ffff:".toList ++ quad) := rfl
  have hparts : colonParts ("ffff:".toList ++ quad) = ["ffff".toList, quad] := by
    have hsplitOn : ([':'].intercalate ["ffff".toList, quad]).splitOn ':' =
        ["ffff".toList, quad] :=
      List.splitOn_intercalate ':' (by simpa using hcolon) (by simp)
    simpa [colonParts, List.intercalate_cons_cons] using hsplitOn
  have hffff : parseGroup? "ffff".toList = some 0xffff := rfl
  have hback : parseGroups? ["ffff".toList, quad] = some [0xffff, groupOf a b, groupOf c d] := by
    simp only [parseGroups?, hffff, h]
    rfl
  rw [parseV6?, hsplit]
  simp only [hparts, hback]
  rfl

theorem parseV6?_groupsText {groups : List UInt16} (h : groups.length = 8) :
    parseV6? (groupsText groups).toList = some groups := by
  rw [groupsText.eq_def]
  split
  · rename_i g h'
    have hmapped := parseV6?_mapped (colon_not_mem_dottedQuad _ _ _ _) (parseQuad?_dottedQuad
      (UInt8.ofNat (g.toNat / 256)) (UInt8.ofNat (g.toNat % 256))
      (UInt8.ofNat (h'.toNat / 256)) (UInt8.ofNat (h'.toNat % 256)))
    rw [groupOf_groupOctets, groupOf_groupOctets] at hmapped
    rw [String.toList_append]
    exact hmapped
  · obtain ⟨before, after, hgroups, hstart⟩ := isZeroRun_longestRun groups
    dsimp only
    split
    · rename_i hlong
      generalize longestRun groups = run at *
      subst hgroups
      rw [← hstart]
      have hafter :
          (before ++ List.replicate run.length 0 ++ after).drop (before.length + run.length) =
            after := by
        simp
      rw [hafter, List.append_assoc, List.take_left, ← List.append_assoc]
      exact parseV6?_gap (by omega) (by simpa [Nat.add_assoc] using h)
    · exact parseV6?_colonGroups h

/-! ## Every address -/

theorem mem_of_mem_intercalate {point c : Char} {parts : List (List Char)}
    (h : c ∈ [point].intercalate parts) : c = point ∨ ∃ part ∈ parts, c ∈ part := by
  induction parts with
  | nil => cases h
  | cons part parts ih =>
      cases parts with
      | nil => exact .inr ⟨part, by simp, by simpa using h⟩
      | cons part' parts =>
          rw [List.intercalate_cons_cons, List.mem_append, List.mem_append,
            List.mem_singleton] at h
          rcases h with (hpart | hpoint) | hrest
          · exact .inr ⟨part, by simp, hpart⟩
          · exact .inl hpoint
          · exact (ih hrest).imp_right fun ⟨q, hq, hc⟩ => ⟨q, List.mem_cons_of_mem _ hq, hc⟩

/-- A text with a colon is no version 4 address. -/
theorem parseQuad?_of_colon {text : List Char} (h : ':' ∈ text) : parseQuad? text = none := by
  have hjoin : ['.'].intercalate (text.splitOn '.') = text := List.intercalate_splitOn '.'
  rw [← hjoin] at h
  obtain ⟨part, hpart, hcolon⟩ := (mem_of_mem_intercalate h).resolve_left (by decide)
  have hdigits : part.all Char.isDigit = false := by
    rw [List.all_eq_false]
    exact ⟨':', hcolon, by decide⟩
  have hnone : parseDecimal? part = none := by
    simp [parseDecimal?, hdigits]
  cases hparse : (text.splitOn '.').mapM parseDecimal? with
  | none => simp [parseQuad?, hparse]
  | some octets =>
      obtain ⟨b, -, hb⟩ := exists_of_mem_left (mapM_eq_some_iff.mp hparse) hpart
      rw [hnone] at hb
      cases hb

theorem colon_mem_groupsText {groups : List UInt16} (h : groups.length = 8) :
    ':' ∈ (groupsText groups).toList := by
  rw [groupsText.eq_def]
  split
  · simp
  · dsimp only
    split
    · simp
    · match groups, h with
      | g :: g' :: groups, _ => simp [colonGroups_cons_cons]

/-- The text of an address is read as that address. -/
theorem parse?_text (address : IpAddress) : parse? address.text = some address := by
  cases address with
  | v4 octets =>
      obtain ⟨⟨octets⟩, hsize⟩ := octets
      match octets, hsize with
      | [a, b, c, d], _ => simp [text, parse?, parseQuad?_dottedQuad]
  | v6 groups =>
      obtain ⟨⟨groups⟩, hsize⟩ := groups
      have hlength : groups.length = 8 := by simpa using hsize
      simp [text, parse?, parseQuad?_of_colon (colon_mem_groupsText hlength),
        parseV6?_groupsText hlength, hlength]

theorem text_injective {a b : IpAddress} (h : a.text = b.text) : a = b :=
  Option.some.inj (by rw [← parse?_text a, h, parse?_text b])

end Pkix.IpAddress
