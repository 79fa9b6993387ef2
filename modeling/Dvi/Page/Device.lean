import Dvi.Page.Event

/-!
# Devices

The interpreter of a stream tells a device where pages begin and end and what is drawn between. A device
keeps what it needs of that.

* `PageCollector` keeps every page;
* `EventCounter` counts.
-/

namespace Dvi

/-- What a device is told. -/
inductive Signal where
  /-- a page begins; nothing is drawn on it yet -/
  | beginPage (page : Page)
  | endPage
  | event (e : Event)
  deriving DecidableEq

/-- A receiver of signals, which may hold pages. -/
class Device (δ : Type) where
  receive : δ → Signal → δ
  /-- hands over the pages held -/
  takePages : δ → List Page × δ

/-- The pages that ended, the last first, and the page under way. -/
structure PageCollector where
  closed : List Page := []
  current : Option Page := none
  deriving DecidableEq, Inhabited

namespace PageCollector

/-- All pages in order, also one under way. -/
def pages (c : PageCollector) : List Page := c.closed.reverse ++ c.current.toList

instance : Device PageCollector where
  receive c
    | .beginPage page => { c with current := some page }
    | .endPage =>
      match c with
      | ⟨closed, some page⟩ => ⟨page :: closed, none⟩
      | c => c
    | .event e =>
      match c with
      | ⟨closed, some page⟩ => ⟨closed, some { page with events := page.events.push e }⟩
      | c => c
  takePages c := (c.pages, {})

end PageCollector

/-- Numbers of pages, characters, rules and specials. -/
structure EventCounter where
  pages : Nat := 0
  chars : Nat := 0
  rules : Nat := 0
  specials : Nat := 0
  deriving DecidableEq, Repr, Inhabited

namespace EventCounter

/-- Counts an event. Selections of fonts are not counted. -/
def count (c : EventCounter) : Event → EventCounter
  | .char .. => { c with chars := c.chars + 1 }
  | .rule .. => { c with rules := c.rules + 1 }
  | .special .. => { c with specials := c.specials + 1 }
  | .fontSelect _ => c

instance : Device EventCounter where
  receive c
    | .beginPage _ => { c with pages := c.pages + 1 }
    | .endPage => c
    | .event e => c.count e
  takePages c := ([], c)

/-- The counts for one page. -/
def ofPage (p : Page) : EventCounter := p.events.foldl count { pages := 1 }

end EventCounter

end Dvi
