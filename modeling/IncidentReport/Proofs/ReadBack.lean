import IncidentReport.Proofs.Forest.Equality
import IncidentReport.Proofs.Tree.Writing
import IncidentReport.Proofs.World

/-!
What a program writes can be read again. A node is read back as its normal form, and a
report that was read is written the same ever after; it is even the same report unless
it bears a mark of provenance or has texts that run together.
-/

namespace IncidentReport

open Markup (Element allNodes)
open IncidentReport.Tree (Sources PlainPayload Tidy)

namespace Report

variable {e : Element} {t : Tree} {text : String}

/-- A report that was read is written as markup that is read again, as the report with
its texts joined in its normal form, which is written the same. -/
theorem parse_print_of_parse (hread : Element.parse text = .ok e) (h : ofElement e = .ok t)
    (plain : Sources PlainPayload e) :
    parse (print t) = .ok t.joined.normal ∧ print t.joined.normal = print t := by
  obtain ⟨ht, hkind⟩ := ofElement_eq_ok_iff.1 h
  have valid := Tree.valid_of_ofElement ht
  have he := Markup.asRead_of_parse hread
  have nodes : t.All fun n => Tree.AsRead n ∧ allNodes Markup.Node.PlainlyNamed n.fragments :=
    Tree.all_of_ofElement
      (fun _ _ hx hn => ⟨Tree.asRead_of_readFrom hx.1 hn, Tree.fragments_of_readFrom hn hx.2⟩)
      ((Tree.sources_of_all he e rfl).and plain) ht
  obtain ⟨again, written⟩ := Tree.ofElement_joined valid (nodes.imp fun _ hn => hn.1)
  have legible := (Markup.Node.all_and _).1 (Tree.all_toElement_of_asRead valid nodes)
  have parsed : parse (print t) = ofElement t.toElement.joined :=
    parse_printDocument legible.1 (legible.2.imp fun _ => Markup.Node.AsRead.enclosed)
  refine ⟨?_, ?_⟩
  · rw [parsed, ofElement_eq_ok_iff, Tree.kind_normal, Tree.kind_joined]
    exact ⟨again, hkind⟩
  · rw [print, written, Markup.printDocument_joined legible.2]
    rfl

end Report

namespace World

/-- Every node of every world is written as markup that is read as a new node, and this
is the old one in its normal form. -/
theorem run_readBack (operations : List Operation) (id : NodeId) :
    let f := (run empty operations).forest
    ∃ u, Tree.ofElement (f.tree id).toElement = .ok u ∧
      (f.plant u).2.tree (f.plant u).1 = u ∧ u.same (f.tree id).normal = true := by
  intro f
  have hf : f.WellFormed := (wellFormed_run wellFormed_empty operations).forest
  obtain ⟨u, hread, restored⟩ := Tree.ofElement_toElement (hf.valid_tree id)
  exact ⟨u, hread, (Forest.plant_spec (Tree.valid_of_ofElement hread) hf).tree, restored.same⟩

end World

namespace Document

variable {f : Forest} {text : String} {d : Document} {g : Forest}

/-- A document that is read is a new root with the tree of the report below it. -/
theorem parse_eq_ok (hf : f.WellFormed) (h : Document.parse f text = .ok (d, g)) :
    Report.parse text = .ok (g.tree d.root) ∧ Forest.Growth f g ∧ g.Has d.root := by
  obtain ⟨t, ht, hplant⟩ := map_eq_ok.1 h
  have planted := Forest.plant_spec (Report.valid_of_parse ht).1 hf
  cases hplant
  exact ⟨by rw [ht]; exact congrArg _ planted.tree.symm, planted.growth, planted.root.has⟩

/-- Writing a document that was read is a fixed point: what is written is read as a
document that is written the same. Unless the text had marks of provenance or texts that
run together, that document is equal to the first. -/
theorem run_print_parse_print (operations : List Operation) {e : Element}
    (hread : Element.parse text = .ok e)
    (hparse : Document.parse (World.run .empty operations).forest text = .ok (d, f))
    (plain : Sources PlainPayload e) :
    ∃ d' g, Document.parse f (d.print f) = .ok (d', g) ∧ d'.print g = d.print f ∧
      (Sources Tidy e → Document.same g d' d = true) := by
  have hrun := (World.wellFormed_run World.wellFormed_empty operations).forest
  obtain ⟨hreport, growth, hroot⟩ := parse_eq_ok hrun hparse
  have hf := growth.wellFormed hrun
  obtain ⟨e', hread', ht⟩ := Report.parse_eq_ok_iff.1 hreport
  obtain rfl : e' = e := Except.ok.inj (hread'.symm.trans hread)
  obtain ⟨again, written⟩ := Report.parse_print_of_parse hread ht plain
  have hparse' : Document.parse f (d.print f) =
      .ok (Document.plant f (f.tree d.root).joined.normal) :=
    congrArg (Except.map (plant f)) again
  obtain ⟨hreport', growth', hroot'⟩ := parse_eq_ok hf hparse'
  have hg := growth'.wellFormed hf
  have tree := Except.ok.inj (hreport'.symm.trans again)
  refine ⟨_, _, hparse', ?_, fun tidy => ?_⟩
  · rw [print, tree, written]
    rfl
  · rw [Document.same, Forest.same_iff hg hroot', tree, Forest.Construction.tree_eq growth' hf hroot,
      Tree.joined_normal_eq_self (Markup.asRead_of_parse hread)
        (Report.ofElement_eq_ok_iff.1 ht).1 tidy]
    exact Tree.same_refl _

/-- A report of an incident that refers to a definition and bears a note from outside
the schema. -/
def notedIncident : Element :=
  ⟨"report", [], [.element "incident" [("definition", "a")]
    [.element "extension" [] [.text "x < y", .element "br" [] [], .cdata "z"]]]⟩

theorem print_parse_print_notedIncident :
    ∃ d f d' g, Document.parse World.empty.forest notedIncident.printDocument = .ok (d, f) ∧
      Document.parse f (d.print f) = .ok (d', g) ∧ d'.print g = d.print f ∧
        Document.same g d' d = true := by
  have hread : Element.parse notedIncident.printDocument = .ok notedIncident :=
    Markup.parse_printDocument (by decide) (by decide)
  obtain ⟨t, ht⟩ : ∃ t, Report.ofElement notedIncident = .ok t := ⟨_, rfl⟩
  obtain ⟨d, f, hparse⟩ : ∃ d f,
      Document.parse World.empty.forest notedIncident.printDocument = .ok (d, f) :=
    ⟨_, _, congrArg (Except.map (plant World.empty.forest))
      (Report.parse_eq_ok_iff.2 ⟨_, hread, ht⟩)⟩
  have plain : Sources PlainPayload notedIncident := by
    refine .mk (fun h => absurd h (by decide)) fun _ => List.forall_mem_singleton.2 ?_
    refine .mk (fun h => absurd h (by decide)) fun _ => List.forall_mem_singleton.2 ?_
    exact .mk (fun _ => by decide) fun h => absurd rfl h
  have tidy : Sources Tidy notedIncident := by
    refine .mk ⟨by decide, fun h => absurd h (by decide)⟩ fun _ => List.forall_mem_singleton.2 ?_
    refine .mk ⟨by decide, fun h => absurd h (by decide)⟩ fun _ => List.forall_mem_singleton.2 ?_
    exact .mk ⟨by decide, fun _ => by decide⟩ fun h => absurd rfl h
  obtain ⟨d', g, hparse', hprint, hsame⟩ := run_print_parse_print [] hread hparse plain
  exact ⟨d, f, d', g, hparse, hparse', hprint, hsame tidy⟩

end Document

end IncidentReport
