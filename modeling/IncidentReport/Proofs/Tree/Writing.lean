import IncidentReport.Proofs.Markup.RoundTrip
import IncidentReport.Proofs.Tree.RoundTrip

/-!
Trees that were read, written. What is written of a tree can be read if its extensions
can; runs of text in them become one text then. The tree that is read next is therefore
the one with its texts joined, and from then on nothing changes.
-/

namespace IncidentReport

open Markup (Element joinTexts allNodes isPlainName)

/-- The names in markup from outside the schema are plain. -/
def Markup.Node.PlainlyNamed : Markup.Node → Prop
  | .element name attributes _ =>
    isPlainName name = true ∧ ∀ name ∈ attributes.names, isPlainName name = true
  | .text _ | .cdata _ | .comment _ => True

/-- No two texts stand next to each other in the element. -/
def Markup.Node.Spaced : Markup.Node → Prop
  | .element _ _ children => Markup.Apart children
  | .text _ | .cdata _ | .comment _ => True

instance : DecidablePred Markup.Node.PlainlyNamed
  | .element name attributes _ =>
    inferInstanceAs (Decidable (isPlainName name = true ∧
      ∀ name ∈ attributes.names, isPlainName name = true))
  | .text _ | .cdata _ | .comment _ => .isTrue trivial

instance : DecidablePred Markup.Node.Spaced
  | .element _ _ children => inferInstanceAs (Decidable (Markup.Apart children))
  | .text _ | .cdata _ | .comment _ => .isTrue trivial

/-- What was read has no empty text, so spacing is all that its texts need. -/
theorem Markup.separatesTexts_of_spaced {nodes : List Markup.Node}
    (h : allNodes Markup.Node.AsRead nodes) (hs : allNodes Markup.Node.Spaced nodes) :
    allNodes Markup.Node.SeparatesTexts nodes := by
  refine Markup.allNodes_imp ?_ ((Markup.allNodes_and _).2 ⟨h, hs⟩)
  rintro (_ | _ | _ | _) ⟨hread, hspaced⟩
  · exact hspaced
  · exact hread
  all_goals trivial

theorem NodeType.isPlainName_name (kind : NodeType) : isPlainName kind.name = true := by
  cases kind <;> decide

/-- The names of the schema are plain. -/
theorem NodeType.isPlainName_of_accepts {kind : NodeType} {entry : String × String}
    (h : kind.Accepts entry) : isPlainName entry.1 = true := by
  have plain : ∀ rule ∈ kind.attributes, isPlainName rule.name = true := by
    cases kind <;> decide
  obtain ⟨rule, hrule, -⟩ := h
  rw [NodeType.attribute?] at hrule
  have hname : rule.name = entry.1 := by simpa using List.find?_some hrule
  exact hname ▸ plain rule (List.mem_of_find?_eq_some hrule)

namespace Node

variable {χ : Type}

/-- The node with the texts in its markup joined. -/
def joined (n : Node χ) : Node χ :=
  { n with
    body := match n.body with
      | .foreign fragments => .foreign (joinTexts [] fragments)
      | body => body }

theorem joined_eq_self {n : Node χ} (h : joinTexts [] n.fragments = n.fragments) :
    n.joined = n := by
  obtain ⟨kind, attributes, body⟩ := n
  cases body with
  | foreign fragments => exact congrArg (fun fragments => Node.mk kind attributes (.foreign fragments)) h
  | empty | children | text => rfl

theorem amends_joined (n : Node χ) : n.Amends n.joined := by
  obtain ⟨kind, attributes, body⟩ := n
  cases body with
  | foreign fragments => exact amends_of_body rfl (by simp [Body.content])
  | empty | children | text => exact ⟨rfl, rfl, id⟩

end Node

namespace Tree

variable {t : Tree}

theorem bodyNodes_children (ts : List Tree) :
    bodyNodes (.children ts) = ts.map (·.toElement.toNode) := by
  rw [bodyNodes]
  induction ts with
  | nil => rfl
  | cons t ts ih => rw [treeNodes, ih, List.map_cons]

/-- What holds of the pieces of markup that each node is written as holds of all that
is written. -/
theorem all_toElement {p : Markup.Node → Prop} (h : t.All fun n =>
    (∀ nodes, p (.element n.kind.name n.attributes.published.entries nodes)) ∧
      (∀ text ∈ n.content?, p (.text text)) ∧ allNodes p n.fragments) :
    t.toElement.toNode.All p := by
  induction h with
  | @mk n root below ih =>
      obtain ⟨kind, attributes, body⟩ := n
      obtain ⟨htag, htext, hfragments⟩ := root
      rw [Attributes.entries_published] at htag
      refine ⟨htag _, ?_⟩
      show allNodes p (bodyNodes body)
      cases body with
      | empty => trivial
      | children ts =>
          rw [bodyNodes_children, Markup.allNodes_iff, List.forall_mem_map]
          exact ih
      | text content =>
          cases content with
          | none => trivial
          | some text => exact ⟨htext text rfl, trivial⟩
      | foreign fragments => exact hfragments

/-- The tree with the texts in its extensions joined. -/
def joined (t : Tree) : Tree :=
  t.map Node.joined

@[simp] theorem kind_joined (t : Tree) : t.joined.kind = t.kind :=
  kind_map (fun n => n.amends_joined.kind) t

theorem joinTexts_map_toElement (ts : List Tree) :
    joinTexts [] (ts.map (·.toElement.toNode)) = ts.map (·.toElement.joined.toNode) := by
  induction ts with
  | nil => rfl
  | cons t ts ih =>
      rw [List.map_cons, List.map_cons, ← ih]
      rfl

/-- The markup of the tree with its texts joined is the normal form of its markup. -/
theorem toElement_joined (h : t.All fun n => ∀ text ∈ n.content?, text ≠ "") :
    t.joined.toElement = t.toElement.joined := by
  induction h with
  | @mk n root below ih =>
      obtain ⟨kind, attributes, body⟩ := n
      cases body with
      | empty | foreign => rfl
      | children ts =>
          have inside : bodyNodes (.children (ts.map joined)) =
              joinTexts [] (bodyNodes (.children ts)) := by
            rw [bodyNodes_children, bodyNodes_children, joinTexts_map_toElement, List.map_map]
            exact List.map_congr_left fun t ht => congrArg Element.toNode (ih t ht)
          rw [joined, map_mk]
          exact congrArg (Element.mk kind.name (writtenAttributes attributes)) inside
      | text content =>
          cases content with
          | none => rfl
          | some text =>
              have hne : text.toList ≠ [] := fun hnil =>
                root text rfl (String.toList_eq_nil_iff.1 hnil)
              have inside : joinTexts [] (bodyNodes (.text (some text))) =
                  bodyNodes (.text (some text)) := by
                show Markup.textNodes ([] ++ text.toList) = _
                rw [List.nil_append, Markup.textNodes_of_ne_nil hne, String.ofList_toList]
                rfl
              exact congrArg (Element.mk kind.name (writtenAttributes attributes)) inside.symm

/-- The normal form of a tree without blank text is written as the tree is. -/
theorem toElement_normal
    (h : t.All fun n => ∀ text ∈ n.content?, text.toList.all Text.isSpace = false) :
    t.normal.toElement = t.toElement := by
  induction h with
  | @mk n root below ih =>
      obtain ⟨kind, attributes, body⟩ := n
      have written : writtenAttributes attributes.published = writtenAttributes attributes := by
        rw [← Attributes.entries_published, ← Attributes.entries_published,
          Attributes.published_eq_self (Attributes.get?_published_provenance attributes)]
      rw [normal_mk]
      cases body with
      | empty | foreign => exact congrArg (Element.mk kind.name · _) written
      | children ts =>
          have inside : bodyNodes (.children (ts.map normal)) = bodyNodes (.children ts) := by
            rw [bodyNodes_children, bodyNodes_children, List.map_map]
            exact List.map_congr_left fun t ht => congrArg Element.toNode (ih t ht)
          exact congrArg₂ (Element.mk kind.name) written inside
      | text content =>
          exact congrArg₂ (Element.mk kind.name) written
            (congrArg bodyNodes (Node.body_normal (n := ⟨kind, attributes, .text content⟩) root))

/-! ### Trees that were read -/

/-- What the nodes have that were read from markup as it is read. -/
structure AsRead (n : Node Tree) : Prop where
  defaultsFirst : n.DefaultsFirst
  content : ∀ text ∈ n.content?, text.toList.all Text.isSpace = false
  fragments : allNodes Markup.Node.AsRead n.fragments

theorem fragments_of_readFrom {p : Markup.Node → Prop} {e : Element} {n : Node Tree}
    (hn : ReadFrom e n) (h : e.name = NodeType.extension.name → allNodes p e.children) :
    allNodes p n.fragments := by
  rw [hn.fragments]
  split
  · next hkind => exact h (by rw [← hn.name, hkind])
  · trivial

theorem asRead_of_readFrom {e : Element} {n : Node Tree} (he : e.toNode.All Markup.Node.AsRead)
    (hn : ReadFrom e n) : AsRead n where
  defaultsFirst := hn.defaultsFirst
  content := hn.visible
  fragments := fragments_of_readFrom hn fun _ => he.2

theorem AsRead.text_ne_empty {n : Node Tree} (h : AsRead n) : ∀ text ∈ n.content?, text ≠ "" := by
  rintro text htext rfl
  have hblank := h.content "" htext
  cases hblank

/-- The names and the texts of what is written are those that can be read. -/
theorem all_toElement_of_asRead (ht : t.Valid)
    (h : t.All fun n => AsRead n ∧ allNodes Markup.Node.PlainlyNamed n.fragments) :
    t.toElement.toNode.All fun x => x.PlainNames ∧ x.AsRead := by
  refine all_toElement ((ht.all.and h).imp ?_)
  rintro n ⟨valid, read, plain⟩
  have names : ∀ name ∈ n.attributes.published.names, isPlainName name = true :=
    List.forall_mem_map.2 fun entry hentry =>
      NodeType.isPlainName_of_accepts (valid.accepts_published entry hentry)
  have nodup := n.attributes.published.nodup
  refine ⟨fun nodes => ⟨⟨n.kind.isPlainName_name, names, nodup⟩, nodup⟩,
    fun text htext => ⟨trivial, read.text_ne_empty text htext⟩, ?_⟩
  refine Markup.allNodes_imp ?_ ((Markup.allNodes_and _).2 ⟨plain, read.fragments⟩)
  rintro (⟨name, attributes, children⟩ | _ | _ | _) ⟨hplain, hread⟩
  · exact ⟨⟨hplain.1, hplain.2, hread⟩, hread⟩
  all_goals exact ⟨trivial, hread⟩

/-- Of what is written of a tree that was read, the tree with its texts joined is read,
and that one is written as its normal form. -/
theorem ofElement_joined (ht : t.Valid) (h : t.All AsRead) :
    ofElement t.toElement.joined = .ok t.joined.normal ∧
      t.joined.normal.toElement = t.toElement.joined := by
  have joined : t.joined.toElement = t.toElement.joined :=
    toElement_joined (h.imp fun _ hn => hn.text_ne_empty)
  have kept : t.joined.All fun n => n.DefaultsFirst ∧
      ∀ text ∈ n.content?, text.toList.all Text.isSpace = false := by
    refine h.map (fun n ts hn => ?_) fun n => n.amends_joined.children
    obtain ⟨kind, attributes, body⟩ := n
    cases body with
    | text content => exact ⟨hn.defaultsFirst, hn.content⟩
    | empty | children | foreign => exact ⟨hn.defaultsFirst, nofun⟩
  obtain ⟨u, hread, hu⟩ := ofElement_toElement (ht.map Node.amends_joined)
  have eq : u = t.joined.normal := hu.eq (kept.imp fun _ hn => hn.1)
  rw [← joined, toElement_normal (kept.imp fun _ hn => hn.2), ← eq]
  exact ⟨hread, rfl⟩

/-- The names in the element are plain, if it is an extension. -/
def PlainPayload (e : Element) : Prop :=
  e.name = NodeType.extension.name → allNodes Markup.Node.PlainlyNamed e.children

/-- The element has no mark of provenance, and if it is an extension, no two texts
stand next to each other in it. -/
def Tidy (e : Element) : Prop :=
  provenanceAttribute ∉ e.attributes.names ∧
    (e.name = NodeType.extension.name → e.toNode.All Markup.Node.Spaced)

/-- What is read of a tidy element is its own normal form. -/
theorem eq_self_of_tidy {e : Element} {n : Node Tree} (hn : ReadFrom e n)
    (he : e.toNode.All Markup.Node.AsRead) (hs : Tidy e) : n.joined = n ∧ n.normal = n := by
  have read := asRead_of_readFrom he hn
  obtain ⟨hmark, hspaced⟩ := hs
  have unmarked : n.attribute? provenanceAttribute = none := by
    rw [Node.attribute?, Attributes.get?, hn.attributes, Attributes.entries_insertAll,
      AttributeList.get?_putAll, AttributeList.get?_reverse he.1, NodeType.entries_defaults, Option.or_eq_none_iff]
    exact ⟨AttributeList.get?_eq_none_iff.2 hmark,
      AttributeList.get?_eq_none_iff.2 n.kind.provenance_not_mem_defaults⟩
  refine ⟨Node.joined_eq_self ?_, Node.normal_eq_self unmarked read.content⟩
  rw [hn.fragments]
  split
  · next hkind =>
      obtain ⟨apart, spaced⟩ := hspaced (by rw [← hn.name, hkind])
      exact Markup.joinTexts_eq_self (Markup.separatesTexts_of_spaced he.2 spaced) apart
  · rfl

theorem joined_normal_eq_self {e : Element} (he : e.toNode.All Markup.Node.AsRead)
    (h : ofElement e = .ok t) (hs : Sources Tidy e) : t.joined.normal = t := by
  have same : t.All fun n => n.joined = n ∧ n.normal = n :=
    all_of_ofElement (fun _ _ hx hn => eq_self_of_tidy hn hx.1 hx.2)
      ((sources_of_all he e rfl).and hs) h
  rw [joined, map_eq_self (same.imp fun _ hn => hn.1), normal,
    map_eq_self (same.imp fun _ hn => hn.2)]

end Tree

end IncidentReport
