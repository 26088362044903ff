import Pkix.Proofs.Document
import Pkix.Proofs.Xml.Texts

/-!
# Markup is well nested

The tags of a text are read from left to right, and every closing tag has to name the element that
was opened last. Texts that leave open what was open before them follow each other and stand between
the tags of an element, which is how all markup is put together. So the markup of every value is one
element, as long as no text in it holds a `<`.
-/

namespace Pkix.Xml

/-! ## Reading tags -/

inductive Tag where
  | opening (name : List Char)
  | closing (name : List Char)
  deriving DecidableEq

/-- The tag with the given text between its brackets. -/
def Tag.ofText : List Char → Tag
  | '/' :: name => .closing name
  | name => .opening name

/-- The tags of a text, which begins inside a tag if some text of that was read before. There are
none if the last tag does not end. -/
def tagsFrom? : Option (List Char) → List Char → Option (List Tag)
  | none, [] => some []
  | some _, [] => none
  | none, c :: rest => if c = '<' then tagsFrom? (some []) rest else tagsFrom? none rest
  | some text, c :: rest =>
    if c = '>' then (Tag.ofText text :: ·) <$> tagsFrom? none rest
    else tagsFrom? (some (text ++ [c])) rest

/-- How many elements the tags open while no element is open, where those of `opened` are open from
before, the last one first. There is no number unless every closing tag names the element that was
opened last and all elements are closed in the end. -/
def outermost? : List (List Char) → List Tag → Option Nat
  | [], [] => some 0
  | _ :: _, [] => none
  | opened, .opening name :: rest =>
    (if opened = [] then (· + 1) else id) <$> outermost? (name :: opened) rest
  | [], .closing _ :: _ => none
  | last :: opened, .closing name :: rest =>
    if name = last then outermost? opened rest else none

/-- The number of outermost elements of a text that is read while some elements are open. -/
def elements? (opened : List (List Char)) (text : List Char) : Option Nat :=
  (tagsFrom? none text).bind (outermost? opened)

/-- Whether a text is one well nested element that ends with a line feed. -/
structure IsElement (text : String) : Prop where
  elements : elements? [] text.toList = some 1
  lineFeed : text.toList.getLast? = some '\n'

/-- Whether a text is any number of well nested elements one after the other. -/
def IsElementSeries (text : String) : Prop :=
  ∃ parts : List String, text = String.join parts ∧ ∀ part ∈ parts, IsElement part

/-! ## Balanced texts -/

/-- Whether a text, wherever it is read, leaves open what was open before it, and counts for a
number of outermost elements. -/
def Balanced (count : Nat) (text : List Char) : Prop :=
  ∀ opened rest, elements? opened (text ++ rest) =
    (if opened = [] then (· + count) else id) <$> elements? opened rest

theorem tagsFrom?_of_not_mem {text : List Char} (h : '<' ∉ text) (rest : List Char) :
    tagsFrom? none (text ++ rest) = tagsFrom? none rest := by
  induction text with
  | nil => rfl
  | cons c text ih =>
      obtain ⟨hc, htext⟩ := not_or.mp (List.mem_cons.not.mp h)
      rw [List.cons_append, tagsFrom?, if_neg (Ne.symm hc), ih htext]

theorem tagsFrom?_some {text : List Char} (h : '>' ∉ text) (before rest : List Char) :
    tagsFrom? (some before) (text ++ '>' :: rest) =
      (Tag.ofText (before ++ text) :: ·) <$> tagsFrom? none rest := by
  induction text generalizing before with
  | nil => simp [tagsFrom?]
  | cons c text ih =>
      obtain ⟨hc, htext⟩ := not_or.mp (List.mem_cons.not.mp h)
      rw [List.cons_append, tagsFrom?, if_neg (Ne.symm hc), ih htext]
      simp

theorem tagsFrom?_tag {text : List Char} (h : '>' ∉ text) (rest : List Char) :
    tagsFrom? none ('<' :: text ++ '>' :: rest) =
      (Tag.ofText text :: ·) <$> tagsFrom? none rest := by
  rw [List.cons_append, tagsFrom?, if_pos rfl, tagsFrom?_some h, List.nil_append]

theorem IsTagName.ofText {name : String} (h : IsTagName name) :
    Tag.ofText name.toList = .opening name.toList := by
  have hslash : '/' ∉ name.toList := h.not_mem (by decide)
  cases hname : name.toList with
  | nil => rfl
  | cons c rest =>
      have hc : c ≠ '/' := by
        rintro rfl
        exact hslash (hname ▸ List.mem_cons_self)
      unfold Tag.ofText
      split
      · rename_i heq
        exact absurd (List.cons.inj heq).1 hc
      · rfl

theorem elements?_opening {name : String} (h : IsTagName name) (opened : List (List Char))
    (rest : List Char) :
    elements? opened ('<' :: name.toList ++ '>' :: rest) =
      (if opened = [] then (· + 1) else id) <$> elements? (name.toList :: opened) rest := by
  rw [elements?, tagsFrom?_tag (h.not_mem (by decide)), h.ofText, elements?]
  cases tagsFrom? none rest with
  | none => rfl
  | some tags => exact outermost?.eq_3 opened name.toList tags

theorem elements?_closing {name : String} (h : IsTagName name) (opened : List (List Char))
    (rest : List Char) :
    elements? (name.toList :: opened) ('<' :: '/' :: name.toList ++ '>' :: rest) =
      elements? opened rest := by
  have hbracket : '>' ∉ '/' :: name.toList :=
    List.mem_cons.not.mpr (not_or.mpr ⟨by decide, h.not_mem (by decide)⟩)
  have htags := tagsFrom?_tag hbracket rest
  rw [elements?, htags, elements?]
  cases tagsFrom? none rest with
  | none => rfl
  | some tags =>
      change outermost? (name.toList :: opened) (.closing name.toList :: tags) = _
      rw [outermost?, if_pos rfl]
      rfl

namespace Balanced

theorem nil : Balanced 0 [] := by
  intro opened rest
  cases opened <;> simp

theorem append {j k : Nat} {s t : List Char} (hs : Balanced j s) (ht : Balanced k t) :
    Balanced (j + k) (s ++ t) := by
  intro opened rest
  rw [List.append_assoc, hs, ht]
  cases elements? opened rest with
  | none => rfl
  | some n =>
      split
      · change some (n + k + j) = some (n + (j + k))
        rw [Nat.add_assoc, Nat.add_comm k j]
      · rfl

theorem of_not_mem {text : List Char} (h : '<' ∉ text) : Balanced 0 text := by
  intro opened rest
  rw [elements?, tagsFrom?_of_not_mem h]
  cases opened <;> simp [elements?]

/-- A balanced text between the tags of an element counts for one, however many elements it has. -/
theorem element {count : Nat} {name : String} {text : List Char} (hname : IsTagName name)
    (h : Balanced count text) :
    Balanced 1 ('<' :: name.toList ++ '>' :: text ++ '<' :: '/' :: name.toList ++ ['>']) := by
  intro opened rest
  calc elements? opened _
    _ = elements? opened ('<' :: name.toList ++ '>' ::
          (text ++ ('<' :: '/' :: name.toList ++ '>' :: rest))) := by simp
    _ = (if opened = [] then (· + 1) else id) <$> elements? (name.toList :: opened)
          (text ++ ('<' :: '/' :: name.toList ++ '>' :: rest)) := elements?_opening hname _ _
    _ = (if opened = [] then (· + 1) else id) <$> elements? (name.toList :: opened)
          ('<' :: '/' :: name.toList ++ '>' :: rest) := by
        rw [h, if_neg (List.cons_ne_nil _ _), id_map]
    _ = _ := by rw [elements?_closing hname]

theorem isElement {text : String} (h : Balanced 1 text.toList)
    (hlast : text.toList.getLast? = some '\n') : IsElement text := by
  refine ⟨?_, hlast⟩
  have hread := h [] []
  rw [List.append_nil] at hread
  exact hread

end Balanced

/-! ## Markup -/

theorem balanced_renderAll {tab : String} {nodes : List Node}
    (h : ∀ node ∈ nodes, ∃ count, Balanced count (node.render tab).toList) :
    ∃ count, Balanced count (renderAll tab nodes).toList := by
  induction nodes with
  | nil => exact ⟨0, by simpa [renderAll] using Balanced.nil⟩
  | cons node nodes ih =>
      obtain ⟨⟨j, hj⟩, hrest⟩ := List.forall_mem_cons.mp h
      obtain ⟨k, hk⟩ := ih hrest
      refine ⟨j + k, ?_⟩
      rw [renderAll, String.toList_append]
      exact hj.append hk

theorem balanced_element {tab name text : String} (htab : '<' ∉ tab.toList)
    (hname : IsTagName name) (htext : '<' ∉ text.toList) :
    Balanced 1 (Xml.element tab name text).toList := by
  have hindent := Balanced.of_not_mem htab
  have hend : Balanced 0 ['\n'] := .of_not_mem (by decide)
  have h := (hindent.append (Balanced.element hname (.of_not_mem htext))).append hend
  simpa [Xml.element] using h

theorem balanced_wrap {tab name body : String} {count : Nat} (htab : '<' ∉ tab.toList)
    (hname : IsTagName name) (h : Balanced count body.toList) :
    Balanced 1 (wrap tab name body).toList := by
  have hindent := Balanced.of_not_mem htab
  have hend : Balanced 0 ['\n'] := .of_not_mem (by decide)
  have h := (hindent.append (Balanced.element hname ((hend.append h).append hindent))).append hend
  simpa [wrap, openTag, closeTag] using h

/-- Nodes without a `<` in their texts are balanced, however they are indented. -/
theorem Node.Avoids.balanced {node : Node} (h : node.Avoids '<') {tab : String}
    (htab : '<' ∉ tab.toList) : ∃ count, Balanced count (node.render tab).toList := by
  induction h generalizing tab with
  | line htext =>
      refine ⟨0, .of_not_mem ?_⟩
      simp [Node.render, Xml.line, htab, htext]
  | leaf hname htext => exact ⟨1, balanced_element htab hname htext⟩
  | block hname _ ih =>
      obtain ⟨count, hcount⟩ := balanced_renderAll fun child hchild =>
        ih child hchild (not_mem_indent (by decide) htab)
      exact ⟨1, balanced_wrap htab hname hcount⟩
  | deeper _ ih =>
      exact balanced_renderAll fun child hchild =>
        ih child hchild (not_mem_indent (by decide) htab)

theorem getLast?_closeTag (tab name : String) :
    (closeTag tab name).toList.getLast? = some '\n' := by
  rw [closeTag, String.toList_append, List.getLast?_append]
  rfl

/-- Whether a node has tags of its own. -/
def Node.HasTags : Node → Prop
  | leaf _ _ | block _ _ => True
  | line _ | deeper _ => False

theorem Node.getLast?_render {node : Node} (h : node.HasTags) (tab : String) :
    (node.render tab).toList.getLast? = some '\n' := by
  cases node with
  | line text => exact h.elim
  | leaf name text =>
      rw [render, Xml.element, String.toList_append, List.getLast?_append]
      rfl
  | block name children =>
      rw [render, wrap, String.toList_append, List.getLast?_append, getLast?_closeTag]
      rfl
  | deeper children => exact h.elim

theorem Node.Avoids.isElement {node : Node} (h : node.Avoids '<') (htags : node.HasTags)
    {tab : String} (htab : '<' ∉ tab.toList) : IsElement (node.render tab) := by
  refine Balanced.isElement ?_ (Node.getLast?_render htags tab)
  cases h with
  | line _ => exact htags.elim
  | leaf hname htext => exact balanced_element htab hname htext
  | block hname hchildren =>
      obtain ⟨count, hcount⟩ := balanced_renderAll fun child hchild =>
        (hchildren child hchild).balanced (not_mem_indent (by decide) htab)
      exact balanced_wrap htab hname hcount
  | deeper _ => exact htags.elim

theorem isElementSeries_renderAll {tab : String} {nodes : List Node}
    (htags : ∀ node ∈ nodes, node.HasTags) (h : ∀ node ∈ nodes, node.Avoids '<')
    (htab : '<' ∉ tab.toList) : IsElementSeries (renderAll tab nodes) := by
  refine ⟨nodes.map (Node.render tab), renderAll_eq_join tab nodes, ?_⟩
  exact List.forall_mem_map.mpr fun node hnode =>
    (h node hnode).isElement (htags node hnode) htab

end Pkix.Xml

namespace Pkix

open Xml

theorem Displayed.hasTags_toXml (v : Displayed) : v.toXml.HasTags := by
  cases v with
  | extension e => cases e <;> trivial
  | identifier | directoryName | generalName | generalNames | userNotice | policyQualifier
  | policyInformation | accessDescription | pointName | distributionPoint | extensions => trivial

/-- The content of an extension stands in tags, except that of a delta indicator, which stands in
them one level deeper. -/
theorem ExtensionValue.isElementSeries {value : ExtensionValue} {tab : String}
    (h : Lack value.texts '<') (htab : '<' ∉ tab.toList) :
    IsElementSeries (value.markup tab) := by
  rw [markup_eq_renderAll]
  have havoids := avoids_toXml (by decide) h
  cases value with
  | deltaCrlIndicator number =>
      have hinner : '<' ∉ (indent tab).toList := not_mem_indent (by decide) htab
      obtain ⟨hnode, -⟩ := List.forall_mem_cons.mp havoids
      cases hnode with
      | deeper hchildren =>
          have hseries := isElementSeries_renderAll (by simp [Node.HasTags]) hchildren hinner
          simpa [toXml, renderAll, Node.render] using hseries
  | basicConstraints | keyUsage | extendedKeyUsage | subjectKeyIdentifier
  | subjectAlternativeName | issuerAlternativeName | crlDistributionPoints
  | certificatePolicies | crlNumber | authorityInformationAccess =>
      refine isElementSeries_renderAll ?_ havoids htab
      simp [toXml, BasicConstraints.toXml, KeyUsage.toXml, GeneralNames.toXml,
        PolicyInformation.toXml, Node.HasTags]
  | authorityKeyIdentifier key =>
      refine isElementSeries_renderAll (List.forall_mem_append.mpr
        ⟨List.forall_mem_append.mpr ⟨?_, ?_⟩, ?_⟩) havoids htab
      · simp [Node.HasTags]
      · split <;> simp [Node.HasTags]
      · simp [Node.HasTags]

/-- The markup of every value is one well nested element, and the content of every extension is any
number of them, provided that neither the texts in it nor the indentation have a `<`. The markup of
a certificate and of a revocation list is that of the extensions read from it. -/
theorem Xml.isElement_markup {tab : String} (htab : '<' ∉ tab.toList) :
    (∀ v : Displayed, Lack v.texts '<' → IsElement (v.markup tab)) ∧
      (∀ value : ExtensionValue, Lack value.texts '<' → IsElementSeries (value.markup tab)) ∧
        ∀ (reg : Registry) (es : List Extension), Lack (es.flatMap Extension.texts) '<' →
          (∀ c : Certificate, c.extensions reg = .ok es →
              ∃ text, c.markup reg tab = .ok text ∧ IsElement text) ∧
            ∀ l : RevocationList, l.extensions reg = .ok es →
              ∃ text, l.markup reg tab = .ok text ∧ IsElement text := by
  have hvalue : ∀ v : Displayed, Lack v.texts '<' → IsElement (v.markup tab) := fun v hv => by
    rw [v.markup_eq_render]
    exact (v.avoids_toXml (by decide) hv).isElement v.hasTags_toXml htab
  refine ⟨hvalue, fun value h => value.isElementSeries h htab, fun reg es hes => ⟨?_, ?_⟩⟩
  · exact fun c hc => ⟨_, c.markup_of_extensions hc tab, hvalue (.extensions es) hes⟩
  · exact fun l hl => ⟨_, l.markup_of_extensions hl tab, hvalue (.extensions es) hes⟩

theorem Xml.isElement_markup_markedExtensions :
    '<' ∉ "\t".toList ∧ Lack (markedExtensions.flatMap Extension.texts) '<' ∧
      IsElement (Extension.listMarkup markedExtensions "\t") ∧
        IsElementSeries ((ExtensionValue.deltaCrlIndicator 7).markup "\t") ∧
          (∃ text, Document.plainCertificate.markup Registry.builtin "\t" = .ok text ∧
            IsElement text) ∧
            ∃ text, Document.plainRevocationList.markup Registry.builtin "\t" = .ok text ∧
              IsElement text := by
  have htab : '<' ∉ "\t".toList := by decide
  have htexts : Lack (markedExtensions.flatMap Extension.texts) '<' := by decide +kernel
  -- Both documents have one extension of no known kind, which is shown by its name.
  let plain : List Extension :=
    [.unknown ⟨Registry.builtin.resolve Oid.commonName, false, []⟩]
  have hplain : Lack (plain.flatMap Extension.texts) '<' := by decide +kernel
  obtain ⟨hvalue, hseries, hdocument⟩ := isElement_markup htab
  obtain ⟨hcertificate, hlist⟩ := hdocument Registry.builtin plain hplain
  exact ⟨htab, htexts, hvalue (.extensions markedExtensions) htexts, hseries _ (by decide),
    hcertificate _ (by decide +kernel), hlist _ (by decide +kernel)⟩

end Pkix
