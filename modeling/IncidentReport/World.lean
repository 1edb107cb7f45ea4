import IncidentReport.Resolution.Live

/-!
All that a program holds: the nodes, its reports and its libraries, and the calls
that make and change them. A call may be refused. It may be given any handle,
however the program came by it.
-/

namespace IncidentReport

structure World where
  forest : Forest
  documents : List Document
  libraries : List Library

/-- A call. Reports and libraries are named by their places in the world; the
numbers of `buildNode`, `buildReport` and `attach` are the library and the budget. -/
inductive Operation where
  | newNode (kind : NodeType)
  | newWithIdentity (kind : NodeType) (id definition akindof : Option String)
  | readNode (element : Markup.Element)
  | setAttribute (node : NodeId) (name value : String)
  | addChild (parent child : NodeId)
  | setContent (node : NodeId) (content : String)
  | clearContent (node : NodeId)
  | addFragment (node : NodeId) (fragment : Markup.Node)
  | copy (node : NodeId)
  | copyAlone (node : NodeId)
  | newDocument
  | readDocument (element : Markup.Element)
  | parseDocument (text : String)
  | newLibrary
  | importReport (library document : Nat)
  | importText (library : Nat) (text : String)
  | find (library : Nat) (id : String)
  | buildNode (library depth : Nat) (id : String)
  | buildReport (library depth : Nat) (id : String)
  | attach (library depth : Nat) (parent child : NodeId)

/-- The handles that a call is given. -/
def Operation.handles : Operation → List NodeId
  | .setAttribute node _ _ | .setContent node _ | .clearContent node | .addFragment node _
  | .copy node | .copyAlone node => [node]
  | .addChild parent child | .attach _ _ parent child => [parent, child]
  | _ => []

namespace World

def empty : World :=
  ⟨.empty, [], []⟩

def withForest (w : World) (f : Forest) : World :=
  { w with forest := f }

/-- The world after an edit, which may have been refused. -/
def edited (w : World) (result : Except Violation Forest) : World :=
  match result with
  | .ok f => w.withForest f
  | .error _ => w

def withDocument (w : World) (made : Document × Forest) : World :=
  { w with forest := made.2, documents := w.documents ++ [made.1] }

def withLibrary (w : World) (library : Nat) (imported : Nat × Library × Forest) : World :=
  { w with forest := imported.2.2, libraries := w.libraries.set library imported.2.1 }

/-- What a call does to the world. -/
def effect (w : World) : Operation → World
  | .newNode kind => w.withForest (w.forest.add (.new kind)).2
  | .newWithIdentity kind id definition akindof =>
    match Node.withIdentity kind id definition akindof with
    | .ok node => w.withForest (w.forest.add node).2
    | .error _ => w
  | .readNode element =>
    match Tree.ofElement element with
    | .ok t => w.withForest (w.forest.plant t).2
    | .error _ => w
  | .setAttribute node name value => w.edited (w.forest.setAttribute node name value)
  | .addChild parent child => w.edited (w.forest.addChild parent child)
  | .setContent node content => w.edited (w.forest.setContent node content)
  | .clearContent node => w.edited (w.forest.clearContent node)
  | .addFragment node fragment => w.edited (w.forest.addFragment node fragment)
  | .copy node => w.withForest (w.forest.copy node).2
  | .copyAlone node => w.withForest (w.forest.copyAlone node).2
  | .newDocument => w.withDocument (Document.new w.forest)
  | .readDocument element =>
    match Document.ofElement w.forest element with
    | .ok made => w.withDocument made
    | .error _ => w
  | .parseDocument text =>
    match Document.parse w.forest text with
    | .ok made => w.withDocument made
    | .error _ => w
  | .newLibrary => { w with libraries := w.libraries ++ [.empty] }
  | .importReport library document =>
    match w.libraries[library]?, w.documents[document]? with
    | some lib, some report => w.withLibrary library (lib.importReport w.forest report)
    | _, _ => w
  | .importText library text =>
    match w.libraries[library]? with
    | some lib =>
      match lib.importText w.forest text with
      | .ok imported => w.withLibrary library imported
      | .error _ => w
    | none => w
  | .find _ _ => w
  | .buildNode library depth id =>
    match w.libraries[library]? with
    | some lib => w.withForest (lib.expand depth id w.forest).2
    | none => w
  | .buildReport library depth id =>
    match w.libraries[library]? with
    | some lib =>
      match lib.assemble depth id w.forest with
      | (.ok report, f) => w.withDocument (report, f)
      | (.error _, f) => w.withForest f
    | none => w
  | .attach library depth parent child =>
    match w.libraries[library]? with
    | some lib => w.withForest (lib.attach w.forest depth parent child).1
    | none => w

/-- Makes a call. No program has a handle that names no node, so a call with one
does nothing. -/
def perform (w : World) (operation : Operation) : World :=
  if ∀ id ∈ operation.handles, w.forest.Has id then w.effect operation else w

def run (w : World) (operations : List Operation) : World :=
  operations.foldl perform w

end World

end IncidentReport
