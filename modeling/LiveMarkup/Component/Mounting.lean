import LiveMarkup.Component.Program

/-!
# Rendering into mount sites

The renderer of a page whose components show themselves in a document: a mount
point is a container, and what a component renders is shown there as at any
mount site. Showing a value never disconnects a component.
-/

namespace LiveMarkup

/-- Renders into the mount sites of a stage. -/
def MountSites.backend : Backend Stage MountSites where
  name _ := "template"
  render m mount ui s :=
    let (e, m, s) := m.renderOn mount ui s
    (m, s, [], e)
  unmount m mount s := m.unmountOn mount s

end LiveMarkup
