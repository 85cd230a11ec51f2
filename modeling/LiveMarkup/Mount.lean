import LiveMarkup.Instance.Stage

/-!
# Mount sites

Every container that something was rendered into is a site. As long as a site
is given values of one template it keeps an instance and patches it; anything
else replaces what is in the container. Releasing a site empties its container.
-/

namespace LiveMarkup

/-- The sites, each with its instance if it shows a template. -/
structure MountSites where
  sites : OrderedMap NodeId (Option Instance)

namespace MountSites

/-- No sites. -/
def empty : MountSites := ⟨∅⟩

instance : Inhabited MountSites := ⟨empty⟩

/-- How many sites there are. -/
def size (m : MountSites) : Nat := m.sites.size

/-- The instance that a container shows. -/
def instance? (m : MountSites) (container : NodeId) : Option Instance :=
  (m.sites.get? container).join

/-- Notes what a container shows. -/
def put (m : MountSites) (container : NodeId) (shown : Option Instance) : MountSites :=
  ⟨m.sites.insert container shown⟩

/-- Appends a rendered node to a container. -/
def appendTo (container n : NodeId) (d : Document) : Option PatchError × Document :=
  if d.contains n then (none, d.append container n) else (some (.unknownNode n), d)

/-- Shows a template in an emptied container. -/
def renderTemplate (spans : InstanceId → List NodeId) (container : NodeId)
    (source : CompiledTemplate) (values : List Value) (m : MountSites)
    (d : Document) : Option PatchError × MountSites × Document :=
  match Instance.createWith spans source (Value.supplies spans values) d with
  | (.error e, d) => (some e, m, d)
  | (.ok i, d) => (none, m.put container (some i), d.append container i.fragment)

/-- Shows a value that is not a template in an emptied container; undefined and
null leave it empty. -/
def renderPlain (spans : InstanceId → List NodeId) (container : NodeId)
    (ui : Value) (m : MountSites) (d : Document) :
    Option PatchError × MountSites × Document :=
  if ui.isNullish then (none, m, d)
  else
    match ui.render spans d with
    | (.error e, d) => (some e, m, d)
    | (.ok n, d) =>
        let (e, d) := appendTo container n d
        (e, m, d)

/-- Shows a value in a container, as the first thing there or in place of
everything that is there. -/
def renderAnew (spans : InstanceId → List NodeId) (container : NodeId) (ui : Value)
    (m : MountSites) (d : Document) : Option PatchError × MountSites × Document :=
  let m := m.put container none
  if d.contains container then
    let d := d.clearChildren container
    match ui with
    | .template source values => renderTemplate spans container source values m d
    | _ => renderPlain spans container ui m d
  else (some (.unknownNode container), m, d)

/-- Shows a value in a container. -/
def render (spans : InstanceId → List NodeId) (container : NodeId) (ui : Value)
    (m : MountSites) (d : Document) : Option PatchError × MountSites × Document :=
  match m.instance? container, ui with
  | some i, .template source values =>
      if i.source = source then
        let (i, e, d) := i.patch spans values d
        (e, m.put container (some i), d)
      else renderAnew spans container ui m d
  | _, _ => renderAnew spans container ui m d

/-- Releases a site and empties its container. What is no site is left alone. -/
def unmount (container : NodeId) (m : MountSites) (d : Document) :
    MountSites × Document :=
  if m.sites.contains container then
    (⟨m.sites.erase container⟩, d.clearChildren container)
  else (m, d)

/-- Shows a value in a container of a stage. -/
def renderOn (m : MountSites) (container : NodeId) (ui : Value) (s : Stage) :
    Option PatchError × MountSites × Stage :=
  let (e, m, d) := m.render s.shared.span container ui s.document
  (e, m, { s with document := d })

/-- Releases a site of a stage. -/
def unmountOn (m : MountSites) (container : NodeId) (s : Stage) :
    MountSites × Stage :=
  let (m, d) := m.unmount container s.document
  (m, { s with document := d })

end MountSites

end LiveMarkup
