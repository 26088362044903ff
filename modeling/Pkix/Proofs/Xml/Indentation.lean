import Pkix.Proofs.Document
import Pkix.Proofs.Xml.Texts

/-!
# Indentation goes in front of each line

Markup after an indentation is the markup without one, with the indentation in front of each line.
Every node is written in whole lines, and the lines of nodes that stand deeper begin with the
indentation that was asked for, so that this holds of nodes of any depth; only the texts in them
must not break lines of their own.
-/

namespace Pkix.Xml

/-- A text with `tab` at its front, if a line begins there, and behind every line feed that is not
the end. -/
def indentFrom (tab : List Char) (atLineStart : Bool) : List Char → List Char
  | [] => []
  | c :: rest => (if atLineStart then tab else []) ++ c :: indentFrom tab (c == '\n') rest

/-- A text with `tab` in front of each of its lines. -/
def indentLines (tab text : String) : String :=
  String.ofList (indentFrom tab.toList true text.toList)

/-! ## Whole lines -/

theorem indentFrom_false_line {line : List Char} (h : '\n' ∉ line) (tab rest : List Char) :
    indentFrom tab false (line ++ '\n' :: rest) = line ++ '\n' :: indentFrom tab true rest := by
  induction line with
  | nil => simp [indentFrom]
  | cons c line ih =>
      obtain ⟨hc, hline⟩ := not_or.mp (List.mem_cons.not.mp h)
      have hfalse : (c == '\n') = false := beq_eq_false_iff_ne.mpr (Ne.symm hc)
      simp [indentFrom, hfalse, ih hline]

theorem indentFrom_true_line {line : List Char} (h : '\n' ∉ line) (tab rest : List Char) :
    indentFrom tab true (line ++ '\n' :: rest) =
      tab ++ line ++ '\n' :: indentFrom tab true rest := by
  cases line with
  | nil => simp [indentFrom]
  | cons c line =>
      obtain ⟨hc, hline⟩ := not_or.mp (List.mem_cons.not.mp h)
      have hfalse : (c == '\n') = false := beq_eq_false_iff_ne.mpr (Ne.symm hc)
      simp [indentFrom, hfalse, indentFrom_false_line hline]

/-- Whether one text is another one with `tab` in front of its lines, whatever follows the two. -/
def IndentedBy (tab plain indented : List Char) : Prop :=
  ∀ rest, indentFrom tab true (plain ++ rest) = indented ++ indentFrom tab true rest

namespace IndentedBy

variable {tab : List Char}

theorem nil : IndentedBy tab [] [] := fun _ => rfl

theorem append {s s' t t' : List Char} (hs : IndentedBy tab s s') (ht : IndentedBy tab t t') :
    IndentedBy tab (s ++ t) (s' ++ t') := by
  intro rest
  rw [List.append_assoc, hs, ht, List.append_assoc]

theorem line (tab : List Char) {text : List Char} (h : '\n' ∉ text) :
    IndentedBy tab (text ++ ['\n']) (tab ++ text ++ ['\n']) := by
  intro rest
  have hline := indentFrom_true_line h tab rest
  simpa using hline

theorem eq_indentLines {tab plain indented : String}
    (h : IndentedBy tab.toList plain.toList indented.toList) :
    indented = indentLines tab plain := by
  have hall := h []
  rw [List.append_nil, indentFrom, List.append_nil] at hall
  rw [indentLines, hall, String.ofList_toList]

end IndentedBy

/-! ## Markup -/

theorem indent_append (tab inner : String) : indent (tab ++ inner) = tab ++ indent inner :=
  String.append_assoc

theorem indentedBy_renderAll (tab : String) {inner : String} {nodes : List Node}
    (h : ∀ node ∈ nodes,
      IndentedBy tab.toList (node.render inner).toList (node.render (tab ++ inner)).toList) :
    IndentedBy tab.toList (renderAll inner nodes).toList
      (renderAll (tab ++ inner) nodes).toList := by
  induction nodes with
  | nil => simpa [renderAll] using IndentedBy.nil
  | cons node nodes ih =>
      obtain ⟨hnode, hrest⟩ := List.forall_mem_cons.mp h
      simp only [renderAll, String.toList_append]
      exact hnode.append (ih hrest)

/-- Nodes without line feeds in their texts are indented line by line. The depth at which a node
stands is part of the induction. -/
theorem Node.Avoids.indentedBy {node : Node} (h : node.Avoids '\n') (tab : String) {inner : String}
    (hinner : '\n' ∉ inner.toList) :
    IndentedBy tab.toList (node.render inner).toList (node.render (tab ++ inner)).toList := by
  induction h generalizing inner with
  | @line text htext =>
      have hline : '\n' ∉ inner.toList ++ text.toList := by simp [hinner, htext]
      simpa [render, Xml.line] using IndentedBy.line tab.toList hline
  | @leaf name text hname htext =>
      have hname' : '\n' ∉ name.toList := hname.not_mem (by decide)
      have hline : '\n' ∉ inner.toList ++ ('<' :: name.toList ++ '>' :: text.toList ++
          '<' :: '/' :: name.toList ++ ['>']) := by
        simp [hinner, htext, hname']
      simpa [render, element] using IndentedBy.line tab.toList hline
  | @block name children hname _ ih =>
      have hname' : '\n' ∉ name.toList := hname.not_mem (by decide)
      have hopening : '\n' ∉ inner.toList ++ ('<' :: name.toList ++ ['>']) := by
        simp [hinner, hname']
      have hclosing : '\n' ∉ inner.toList ++ ('<' :: '/' :: name.toList ++ ['>']) := by
        simp [hinner, hname']
      have hchildren := indentedBy_renderAll tab fun child hchild =>
        ih child hchild (not_mem_indent (by decide) hinner)
      have hall := ((IndentedBy.line tab.toList hopening).append hchildren).append
        (IndentedBy.line tab.toList hclosing)
      simpa [render, wrap, openTag, closeTag, indent_append] using hall
  | @deeper children _ ih =>
      have hchildren := indentedBy_renderAll tab fun child hchild =>
        ih child hchild (not_mem_indent (by decide) hinner)
      simpa only [render, indent_append] using hchildren

theorem Node.Avoids.render_eq {node : Node} (h : node.Avoids '\n') (tab : String) :
    node.render tab = indentLines tab (node.render "") := by
  have hindented := h.indentedBy tab (by simp : '\n' ∉ "".toList)
  rw [String.append_empty] at hindented
  exact hindented.eq_indentLines

theorem renderAll_eq {nodes : List Node} (h : ∀ node ∈ nodes, node.Avoids '\n') (tab : String) :
    renderAll tab nodes = indentLines tab (renderAll "" nodes) := by
  have hindented := indentedBy_renderAll tab fun node hnode =>
    (h node hnode).indentedBy tab (by simp : '\n' ∉ "".toList)
  rw [String.append_empty] at hindented
  exact hindented.eq_indentLines

end Pkix.Xml

namespace Pkix

open Xml

/-- The markup of every value and the content of every extension after an indentation is the one
without an indentation, indented line by line, provided that the texts in it have no line feed. The
indentation is any text. The markup of a certificate and of a revocation list is that of the
extensions read from it. -/
theorem Xml.markup_eq_indentLines (tab : String) :
    (∀ v : Displayed, Lack v.texts '\n' → v.markup tab = indentLines tab (v.markup "")) ∧
      (∀ value : ExtensionValue, Lack value.texts '\n' →
          value.markup tab = indentLines tab (value.markup "")) ∧
        ∀ (reg : Registry) (es : List Extension), Lack (es.flatMap Extension.texts) '\n' →
          (∀ c : Certificate, c.extensions reg = .ok es →
              ∃ text, c.markup reg "" = .ok text ∧
                c.markup reg tab = .ok (indentLines tab text)) ∧
            ∀ l : RevocationList, l.extensions reg = .ok es →
              ∃ text, l.markup reg "" = .ok text ∧
                l.markup reg tab = .ok (indentLines tab text) := by
  have hvalue : ∀ v : Displayed, Lack v.texts '\n' →
      v.markup tab = indentLines tab (v.markup "") := fun v hv => by
    rw [v.markup_eq_render, v.markup_eq_render]
    exact (v.avoids_toXml (by decide) hv).render_eq tab
  refine ⟨hvalue, fun value h => ?_, fun reg es hes => ⟨fun c hc => ?_, fun l hl => ?_⟩⟩
  · rw [value.markup_eq_renderAll, value.markup_eq_renderAll]
    exact renderAll_eq (value.avoids_toXml (by decide) h) tab
  · exact ⟨_, c.markup_of_extensions hc "",
      (c.markup_of_extensions hc tab).trans (congrArg Except.ok (hvalue (.extensions es) hes))⟩
  · exact ⟨_, l.markup_of_extensions hl "",
      (l.markup_of_extensions hl tab).trans (congrArg Except.ok (hvalue (.extensions es) hes))⟩

theorem Xml.markup_eq_indentLines_markedExtensions :
    let tab := "#\n\t"
    let shown := Extension.listMarkup markedExtensions
    let content := (ExtensionValue.deltaCrlIndicator 7).markup
    Lack (markedExtensions.flatMap Extension.texts) '\n' ∧
      shown tab = indentLines tab (shown "") ∧ content tab = indentLines tab (content "") ∧
        (∃ text, Document.plainCertificate.markup Registry.builtin "" = .ok text ∧
          Document.plainCertificate.markup Registry.builtin tab = .ok (indentLines tab text)) ∧
          ∃ text, Document.plainRevocationList.markup Registry.builtin "" = .ok text ∧
            Document.plainRevocationList.markup Registry.builtin tab =
              .ok (indentLines tab text) := by
  intro tab shown content
  have htexts : Lack (markedExtensions.flatMap Extension.texts) '\n' := by decide +kernel
  -- Both documents have one extension of no known kind, which is shown by its name.
  let plain : List Extension :=
    [.unknown ⟨Registry.builtin.resolve Oid.commonName, false, []⟩]
  have hplain : Lack (plain.flatMap Extension.texts) '\n' := by decide +kernel
  obtain ⟨hvalue, hcontent, hdocument⟩ := markup_eq_indentLines tab
  obtain ⟨hcertificate, hlist⟩ := hdocument Registry.builtin plain hplain
  exact ⟨htexts, hvalue (.extensions markedExtensions) htexts, hcontent _ (by decide),
    hcertificate _ (by decide +kernel), hlist _ (by decide +kernel)⟩

end Pkix
