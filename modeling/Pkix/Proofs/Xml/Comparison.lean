import Pkix.Proofs.IpAddress.Text
import Pkix.Proofs.Text.Delimiter
import Pkix.Proofs.Xml.Texts

/-!
# Names can be compared by their markup

Texts stand in markup as they are. A text that holds the closing tag of its own element at the end
of a line can be taken for several elements, but no other text can: markup is read from the front,
and each tag, text and indentation says where it ends. So different names have different markup,
whatever indentation is asked for.
-/

namespace Pkix

namespace Xml

/-- The closing tag of an element and the line feed after it. -/
def closingLine (name : String) : List Char := '<' :: ('/' :: name.toList ++ ['>', '\n'])

end Xml

open Xml

/-! ## Names whose texts do not close their elements -/

/-- Whether the value of an entry does without the closing tag of its own element at the end of a
line. -/
def NameEntry.IsDelimited (entry : NameEntry) : Prop :=
  ¬ closingLine entry.type.xmlName <:+: entry.value.toList

instance : DecidablePred NameEntry.IsDelimited := fun _ =>
  @instDecidableNot _ (List.instDecidableIsInfixOfDecidableEq _ _)

def DirectoryName.IsDelimited (name : DirectoryName) : Prop :=
  ∀ entry ∈ name.entries, entry.IsDelimited

instance : DecidablePred DirectoryName.IsDelimited := fun name =>
  inferInstanceAs (Decidable (∀ entry ∈ name.entries, entry.IsDelimited))

/-- Whether a name is a mail address, a domain, a URI, an address or a directory name, of which no
line ends with the closing tag of the element that it stands in. -/
def GeneralName.IsDelimited : GeneralName → Prop
  | undefined | otherName _ _ | registeredId _ => False
  | rfc822Name text => ¬ closingLine "rfc822Name" <:+: text.toList ++ ['\n']
  | dnsName text => ¬ closingLine "dnsName" <:+: text.toList ++ ['\n']
  | uri text => ¬ closingLine "uniformResourceIdentifier" <:+: text.toList ++ ['\n']
  | directoryName name => name.IsDelimited
  | ipAddress _ => True

instance : DecidablePred GeneralName.IsDelimited
  | .undefined | .otherName _ _ | .registeredId _ => inferInstanceAs (Decidable False)
  | .rfc822Name _ | .dnsName _ | .uri _ =>
    @instDecidableNot _ (List.instDecidableIsInfixOfDecidableEq _ _)
  | .directoryName name => inferInstanceAs (Decidable name.IsDelimited)
  | .ipAddress _ => inferInstanceAs (Decidable True)

/-! ## Elements -/

namespace Xml

theorem lt_not_mem_closing {name : String} (h : IsTagName name) :
    '<' ∉ '/' :: name.toList ++ ['>', '\n'] := by
  have hname : '<' ∉ name.toList := h.not_mem (by decide)
  simp [hname]

theorem eq_of_append_closingLine {name : String} (hname : IsTagName name) {v v' r r' : List Char}
    (hv : ¬ closingLine name <:+: v) (hv' : ¬ closingLine name <:+: v')
    (h : v ++ (closingLine name ++ r) = v' ++ (closingLine name ++ r')) : v = v' :=
  eq_of_append_delimiter (lt_not_mem_closing hname) (fun hbegins => hv (BeginsIn.isInfix hbegins))
    (fun hbegins => hv' (BeginsIn.isInfix hbegins)) h

/-- A text on a line of its own ends before the closing tag at the given indentation. -/
theorem eq_of_append_line {name : String} (hname : IsTagName name) {tab v v' r r' : List Char}
    (hv : ¬ closingLine name <:+: v ++ ['\n']) (hv' : ¬ closingLine name <:+: v' ++ ['\n'])
    (h : v ++ '\n' :: (tab ++ (closingLine name ++ r)) =
      v' ++ '\n' :: (tab ++ (closingLine name ++ r'))) : v = v' := by
  have hfront : '\n' ∉ '<' :: '/' :: name.toList ++ ['>'] := by
    have hlineFeed : '\n' ∉ name.toList := hname.not_mem (by decide)
    simp [hlineFeed]
  have hclosing : closingLine name = '<' :: '/' :: name.toList ++ ['>'] ++ ['\n'] := by
    simp [closingLine]
  have hends {text : List Char} (hbegins : BeginsIn (closingLine name) text ('\n' :: tab)) :
      closingLine name <:+: text ++ ['\n'] := by
    rw [hclosing] at hbegins ⊢
    exact hbegins.isInfix_append_singleton hfront
  exact eq_of_append_delimiter (lt_not_mem_closing hname) (fun hbegins => hv (hends hbegins))
    (fun hbegins => hv' (hends hbegins)) h

theorem name_of_append_eq {tab : List Char} {a b : String} (ha : IsTagName a) (hb : IsTagName b)
    {r r' : List Char}
    (h : tab ++ '<' :: (a.toList ++ '>' :: r) = tab ++ '<' :: (b.toList ++ '>' :: r')) :
    a = b ∧ r = r' := by
  have hnames := (List.cons.inj (List.append_cancel_left h)).2
  obtain ⟨hname, hrest⟩ := append_cons_inj (ha.not_mem (by decide)) (hb.not_mem (by decide)) hnames
  exact ⟨String.toList_inj.mp hname, hrest⟩

theorem toList_element (tab name text : String) :
    (element tab name text).toList =
      tab.toList ++ '<' :: (name.toList ++ '>' :: (text.toList ++ closingLine name)) := by
  simp [element, closingLine]

theorem toList_wrap (tab name body : String) :
    (wrap tab name body).toList =
      tab.toList ++ '<' :: (name.toList ++ '>' :: '\n' ::
        (body.toList ++ (tab.toList ++ closingLine name))) := by
  simp [wrap, openTag, closeTag, closingLine]

/-- Members that are known from their markup are known from the element that holds them, if each of
them begins at its own indentation. -/
theorem selfDelimiting_wrap {α : Type} {P : α → Prop} {f : α → String} {tab name : String}
    (h : SelfDelimiting P fun a => (f a).toList)
    (hf : ∀ a, ∃ rest, (f a).toList = (indent tab).toList ++ rest) :
    SelfDelimiting (fun as : List α => ∀ a ∈ as, P a) fun as =>
      (wrap tab name (String.join (as.map f))).toList := by
  have hstop : ∀ a, P a → ∀ r r', (f a).toList ++ r ≠
      (tab.toList ++ closingLine name) ++ r' := by
    intro a _ r r' heq
    obtain ⟨rest, hrest⟩ := hf a
    rw [hrest] at heq
    simp [indent, closingLine] at heq
  have hmembers := (h.flatMap hstop).append_left
    (tab.toList ++ '<' :: (name.toList ++ ['>', '\n']))
  simpa [toList_wrap, List.flatMap_map] using hmembers

end Xml

/-! ## Directory names -/

theorem AttributeType.find?_xmlName (t : AttributeType) :
    all.find? (·.xmlName = t.xmlName) = some t := by
  cases t <;> decide

theorem AttributeType.xmlName_inj {t u : AttributeType} (h : t.xmlName = u.xmlName) : t = u :=
  Option.some.inj (by rw [← t.find?_xmlName, ← u.find?_xmlName, h])

theorem NameEntry.selfDelimiting (tab : String) :
    SelfDelimiting IsDelimited fun entry =>
      (element tab entry.type.xmlName entry.value).toList := by
  intro a b ha hb r r' h
  simp only [toList_element, List.append_assoc, List.cons_append] at h
  obtain ⟨hname, htext⟩ := name_of_append_eq a.type.isTagName_xmlName b.type.isTagName_xmlName h
  have htype : a.type = b.type := AttributeType.xmlName_inj hname
  rw [NameEntry.IsDelimited, ← htype] at hb
  rw [← htype] at htext
  have hvalue := eq_of_append_closingLine a.type.isTagName_xmlName ha hb htext
  cases a
  cases b
  simp_all [String.toList_inj]

theorem DirectoryName.selfDelimiting (tab : String) :
    SelfDelimiting IsDelimited fun name => (name.markup tab).toList := by
  intro a b ha hb r r' h
  have hentries : a.entries = b.entries :=
    selfDelimiting_wrap (NameEntry.selfDelimiting (indent tab))
      (fun entry => ⟨_, toList_element _ _ _⟩) ha hb h
  cases a
  cases b
  simp_all

/-! ## General names -/

theorem eq_of_line_eq {name tab text text' : String} (hname : IsTagName name)
    {front r r' : List Char} (htext : ¬ closingLine name <:+: text.toList ++ ['\n'])
    (htext' : ¬ closingLine name <:+: text'.toList ++ ['\n'])
    (h : '\n' :: ((Xml.line tab text).toList ++ (front ++ (closingLine name ++ r))) =
      '\n' :: ((Xml.line tab text').toList ++ (front ++ (closingLine name ++ r')))) :
    text = text' := by
  apply String.toList_inj.mp
  apply eq_of_append_line hname htext htext'
  simpa [Xml.line] using h

theorem IpAddress.not_isInfix_text (address : IpAddress) (name : String) :
    ¬ closingLine name <:+: address.text.toList ++ ['\n'] := by
  intro h
  have hmem : '<' ∈ address.text.toList ++ ['\n'] := h.subset (by simp [closingLine])
  have hplain : '<' ∉ address.text.toList := (isPlain_text address).not_mem (by decide)
  simp [hplain] at hmem

theorem GeneralName.selfDelimiting (tab : String) :
    SelfDelimiting IsDelimited fun name => (name.markup tab).toList := by
  intro a b ha hb r r' h
  simp only [markup, toList_wrap, List.append_assoc, List.cons_append] at h
  obtain ⟨hname, hcontent⟩ := name_of_append_eq a.isTagName_typeName b.isTagName_typeName h
  -- Names of different forms have different tags, so that only equal forms are left.
  cases a <;> cases b <;>
    try first | exact ha.elim | exact hb.elim | (simp [typeName] at hname; done)
  case rfc822Name.rfc822Name text text' =>
    rw [eq_of_line_eq (by decide) ha hb hcontent]
  case dnsName.dnsName text text' =>
    rw [eq_of_line_eq (by decide) ha hb hcontent]
  case directoryName.directoryName name name' =>
    have hnames := List.cons.inj hcontent
    rw [DirectoryName.selfDelimiting (indent tab) ha hb hnames.2]
  case uri.uri text text' =>
    rw [eq_of_line_eq (by decide) ha hb hcontent]
  case ipAddress.ipAddress address address' =>
    have htexts : address.text = address'.text :=
      eq_of_line_eq (isTagName_typeName (ipAddress address)) (address.not_isInfix_text _)
        (address'.not_isInfix_text _) hcontent
    rw [IpAddress.text_injective htexts]

theorem GeneralNames.selfDelimiting (tab : String) :
    SelfDelimiting (fun names : GeneralNames => ∀ name ∈ names, name.IsDelimited) fun names =>
      (names.markup tab).toList :=
  selfDelimiting_wrap (GeneralName.selfDelimiting (indent tab))
    fun _ => ⟨_, toList_wrap _ _ _⟩

/-! ## Different names -/

/-- Directory names with different entries have different markup after every indentation, and so
have different lists of general names, provided that no text in them closes its own element. -/
theorem Xml.markup_ne (tab : String) :
    (∀ a b : DirectoryName, a.IsDelimited → b.IsDelimited → a.entries ≠ b.entries →
        a.markup tab ≠ b.markup tab) ∧
      ∀ as bs : GeneralNames, (∀ a ∈ as, a.IsDelimited) → (∀ b ∈ bs, b.IsDelimited) → as ≠ bs →
        as.markup tab ≠ bs.markup tab := by
  refine ⟨fun a b ha hb hne heq => ?_, fun as bs has hbs hne heq => ?_⟩
  · have hab : a ≠ b := fun h => hne (congrArg DirectoryName.entries h)
    exact (DirectoryName.selfDelimiting tab).ne ha hb hab (congrArg String.toList heq)
  · exact (GeneralNames.selfDelimiting tab).ne has hbs hne (congrArg String.toList heq)

/-- Names with line feeds, tags and the indentation itself in their texts. -/
theorem Xml.markup_ne_markedNames :
    let tab := "</commonName>\n"
    let a : DirectoryName := ⟨[⟨.commonName, "<b>\n\t</title>\n"⟩, ⟨.title, "</title>"⟩]⟩
    let b : DirectoryName := ⟨[⟨.title, "</title>"⟩, ⟨.commonName, "<b>\n\t</title>\n"⟩]⟩
    let as : GeneralNames :=
      [.dnsName "a\n</dnsName>b", .directoryName a, .ipAddress (.v4 #v[1, 2, 3, 4])]
    let bs : GeneralNames :=
      [.uri "a\n</dnsName>b", .directoryName a, .ipAddress (.v4 #v[1, 2, 3, 4])]
    (a.IsDelimited ∧ b.IsDelimited ∧ a.entries ≠ b.entries) ∧
      ((∀ a ∈ as, a.IsDelimited) ∧ (∀ b ∈ bs, b.IsDelimited) ∧ as ≠ bs) ∧
        a.markup tab ≠ b.markup tab ∧ as.markup tab ≠ bs.markup tab := by
  intro tab a b as bs
  obtain ⟨hnames, hgeneral⟩ := markup_ne tab
  have hab : a.IsDelimited ∧ b.IsDelimited ∧ a.entries ≠ b.entries := by decide_cbv
  have hasbs : (∀ a ∈ as, a.IsDelimited) ∧ (∀ b ∈ bs, b.IsDelimited) ∧ as ≠ bs := by
    decide_cbv
  exact ⟨hab, hasbs, hnames a b hab.1 hab.2.1 hab.2.2, hgeneral as bs hasbs.1 hasbs.2.1 hasbs.2.2⟩

/-- A text that closes its own element is shown as two elements are, in directory names as well as
in general names. -/
theorem Xml.markup_embeddedTags :
    let joined : DirectoryName := ⟨[⟨.commonName, "a</commonName>\n\t<commonName>b"⟩]⟩
    let apart : DirectoryName := ⟨[⟨.commonName, "a"⟩, ⟨.commonName, "b"⟩]⟩
    let joinedNames : GeneralNames := [.dnsName "a\n\t</dnsName>\n\t<dnsName>\n\t\tb"]
    let apartNames : GeneralNames := [.dnsName "a", .dnsName "b"]
    joined.entries ≠ apart.entries ∧ joined.markup "" = apart.markup "" ∧
      joinedNames ≠ apartNames ∧ joinedNames.markup "" = apartNames.markup "" := by
  decide +kernel

end Pkix
