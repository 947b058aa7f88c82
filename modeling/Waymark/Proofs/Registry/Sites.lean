/-
The entries of sites.

A plan is entered site by site, so the number of a site's entry is its place, counted
from the number of the first one.  Where the plan is that of an alias, what is entered
is paired with an older tree, whose sites with primary paths have places as well
(`Registry.Primaries`).

* `holds_grown`, `primaries_grown` — the entries of sites stay what they are while
  entries are added beside them;
* `placesWell` — entering a plan that is welcome gives every site of the definition its
  entry: compiled from the site's path under the pattern of the parent's entry, and an
  alias of the entry of the node's primary site.
-/
import Waymark.Proofs.Plan.Sites
import Waymark.Proofs.Registry.Commit

namespace Waymark

namespace Definition

/-- The number of the parent of a site's entry, if the sites are counted from a base and the
first one has the given parent. -/
def parentAt (d : Definition) (base : Nat) (parent : Option Nat) (s : Site) : Option Nat :=
  match s.above? with
  | none => parent
  | some above => some (base + d.place above)

/-- The number of the entry that a site's entry is an alias of.  Aliases of what is counted from
another base are the entries of that tree; otherwise only sites with some alias on the way are. -/
def originalAt (d : Definition) (base : Nat) (original : Option Nat) (s : Site) : Option Nat :=
  match original with
  | none => if s.primary = s then none else some (base + d.place s.primary)
  | some o => some (o + d.place s.primary)

/-- The numbers of the first sites of several definitions, counted from a base. -/
def firsts (base : Nat) : List Definition → List Nat
  | [] => []
  | d :: rest => base :: firsts (base + d.sites) rest

theorem getElem?_firsts {base index : Nat} {ds : List Definition} {c : Definition}
    (member : ds[index]? = some c) :
    (firsts base ds)[index]? = some (base + sitesOfAll (ds.take index)) := by
  induction ds generalizing base index with
  | nil => exact absurd member (by simp)
  | cons d rest ih =>
    cases index with
    | zero => rfl
    | succ index =>
      rw [firsts, List.getElem?_cons_succ, ih member, List.take_succ_cons, sitesOfAll]
      congr 1
      omega

variable {d c : Definition} {base : Nat} {parent original : Option Nat}

/-- The links of what is nested are those that it has in the tree of the child, counted from the
child's place. -/
theorem parentAt_nested {choice : Option Nat} {index : Nat} {below : Site}
    (child : d.children[index]? = some c) :
    d.parentAt base parent (.nested choice index below) =
      c.parentAt (base + rank choice * d.width + d.childPlace index)
        (some (base + rank choice * d.width)) below := by
  rw [parentAt, parentAt, Site.above?]
  cases below.above? with
  | none => rfl
  | some above =>
    simp only [place_nested child]
    congr 1
    omega

theorem originalAt_nested {choice : Option Nat} {index : Nat} {below : Site}
    (child : d.children[index]? = some c) :
    d.originalAt base original (.nested choice index below) =
      c.originalAt (base + rank choice * d.width + d.childPlace index)
        ((if choice = none then original else some (original.getD base)).map
          (· + d.childPlace index)) below := by
  have zero : rank none = 0 := rfl
  have primary : d.place (.nested none index below.primary) =
      d.childPlace index + c.place below.primary := by
    rw [place_nested child, zero, Nat.zero_mul, Nat.zero_add]
  cases choice with
  | none =>
    rw [if_pos rfl]
    cases original with
    | none =>
      simp only [originalAt, Option.map_none, Site.primary, Site.nested.injEq, true_and, primary,
        zero, Nat.zero_mul, Nat.add_zero, Nat.add_assoc]
    | some o => simp only [originalAt, Option.map_some, Site.primary, primary, Nat.add_assoc]
  | some place =>
    rw [if_neg (by simp)]
    cases original with
    | none =>
      simp [originalAt, Site.primary, primary, Nat.add_assoc]
    | some o =>
      simp only [originalAt, Option.map_some, Option.getD_some, Site.primary, primary,
        Nat.add_assoc]

end Definition

namespace Registry

open Definition (firsts sitesOfAll rank)

variable {options : RouterOptions} {r r' : Registry} {c d node : Definition} {raw : String}
  {parent original : Option Nat} {id base : Nat} {e : Entry}

/-- The pattern of the entry with a number. -/
def patternOf? (r : Registry) (id : Option Nat) : Option String :=
  (id.bind r.get?).map fun e => e.matcher.pattern

/-- The entry with a number is the one for a path of a definition: compiled from the path as it is
under the parent, with the record of the definition. -/
structure Holds (r : Registry) (options : RouterOptions) (node : Definition) (raw : String)
    (parent original : Option Nat) (id : Nat) (e : Entry) : Prop where
  found : r.get? id = some e
  under : e.parent = parent
  standsFor : e.aliasOf = original
  compiled : Matcher.ofPattern (Path.resolve raw (r.patternOf? parent))
    (options.patternOptions node) = .ok e.matcher
  record : e.record = Record.ofDefinition node e.matcher.pattern ⟨r.lineage, id⟩
    (r.recordId? parent) (r.recordId? original)

/-- Counted from a base, every site of the definition has its entry. -/
def Sited (r : Registry) (options : RouterOptions) (d : Definition) (base : Nat)
    (parent original : Option Nat) : Prop :=
  ∀ s node raw, d.at? s = some (node, raw) →
    ∃ e, Holds r options node raw (d.parentAt base parent s) (d.originalAt base original s)
      (base + d.place s) e

/-- One path of the definition has its entry, and what is nested under it has its entries. -/
structure PathSited (r : Registry) (options : RouterOptions) (d : Definition) (raw : String)
    (base : Nat) (parent original : Option Nat) : Prop where
  own : ∃ e, Holds r options d raw parent original base e
  nested {index : Nat} {c : Definition} : d.children[index]? = some c →
    Sited r options c (base + d.childPlace index) (some base)
      (original.map (· + d.childPlace index))

/-- Counted from a base, the sites with primary paths only have entries that are no aliases and
that list the first sites of the children. -/
def Primaries (r : Registry) (d : Definition) (base : Nat) : Prop :=
  ∀ s node raw, d.at? s = some (node, raw) → s.primary = s →
    ∃ e, r.get? (base + d.place s) = some e ∧ e.aliasOf = none ∧
      e.children = firsts (base + d.place s + 1) node.children

/-! ### Growth -/

/-- What links do not change about an entry can be read off it as before. -/
theorem Grown.map_get? {α : Type} {top : Option Nat} (g : Grown top original r r') {f : Entry → α}
    (same : ∀ e children aliases, f (e.extend children aliases) = f e) {link : Option Nat}
    (live : ∀ id, link = some id → ∃ e, r.get? id = some e) :
    (link.bind r'.get?).map f = (link.bind r.get?).map f := by
  cases link with
  | none => rfl
  | some id =>
    obtain ⟨e, found⟩ := live id rfl
    obtain ⟨children, aliases, found', -⟩ := g.kept found
    rw [Option.bind_some, Option.bind_some, found, found', Option.map_some, Option.map_some, same]

theorem Grown.recordId? {top : Option Nat} (g : Grown top original r r') {link : Option Nat}
    (live : ∀ id, link = some id → ∃ e, r.get? id = some e) :
    r'.recordId? link = r.recordId? link :=
  g.map_get? (fun _ _ _ => rfl) live

theorem Grown.patternOf? {top : Option Nat} (g : Grown top original r r') {link : Option Nat}
    (live : ∀ id, link = some id → ∃ e, r.get? id = some e) :
    r'.patternOf? link = r.patternOf? link :=
  g.map_get? (fun _ _ _ => rfl) live

theorem holds_grown (h : Linked r) {top original' : Option Nat} (g : Grown top original' r r')
    (holds : Holds r options node raw parent original id e) :
    ∃ e', Holds r' options node raw parent original id e' := by
  have parents : ∀ p, parent = some p → ∃ e, r.get? p = some e := by
    intro p isParent
    exact (h.parent holds.found (holds.under.trans isParent)).2.1
  have originals : ∀ o, original = some o → ∃ e, r.get? o = some e := by
    intro o isOriginal
    obtain ⟨-, oe, foundO, -⟩ := h.original holds.found (holds.standsFor.trans isOriginal)
    exact ⟨oe, foundO⟩
  obtain ⟨children, aliases, found', -⟩ := g.kept holds.found
  refine ⟨_, found', holds.under, holds.standsFor, ?_, ?_⟩
  · rw [g.patternOf? parents]
    exact holds.compiled
  · rw [g.recordId? parents, g.recordId? originals, g.lineage]
    exact holds.record

theorem Sited.grown (h : Linked r) {top original' : Option Nat} (g : Grown top original' r r')
    (sited : Sited r options d base parent original) :
    Sited r' options d base parent original := by
  intro s node raw valid
  obtain ⟨e, holds⟩ := sited s node raw valid
  exact holds_grown h g holds

theorem PathSited.grown (h : Linked r) {top original' : Option Nat}
    (g : Grown top original' r r') (sited : PathSited r options d raw base parent original) :
    PathSited r' options d raw base parent original where
  own := by
    obtain ⟨e, holds⟩ := sited.own
    exact holds_grown h g holds
  nested := fun child => (sited.nested child).grown h g

theorem primaries_grown {top original' : Option Nat} (g : Grown top original' r r')
    (outside : Outside r top base) (primaries : Primaries r d base) : Primaries r' d base := by
  intro s node raw valid primary
  obtain ⟨e, found, noAlias, listed⟩ := primaries s node raw valid primary
  obtain ⟨children, aliases, found', noChildren, -⟩ := g.kept found
  have unchanged : children = [] := by
    refine noChildren fun isTop => ?_
    rcases outside _ isTop with older | ⟨e', foundAlias, isAlias⟩
    · omega
    · rw [found] at foundAlias
      rw [← Option.some.inj foundAlias, Entry.isAlias, noAlias] at isAlias
      exact absurd isAlias (by simp)
  refine ⟨_, found', noAlias, ?_⟩
  rw [unchanged, Entry.extend_children, List.append_nil, listed]

/-! ### The parts of a tree -/

/-- The number among the children of the first entry is that of the child's first site. -/
theorem Primaries.childAt? (primaries : Primaries r d base) {index : Nat} {c : Definition}
    (child : d.children[index]? = some c) :
    r.childAt? (some base) index = some (base + d.childPlace index) := by
  obtain ⟨e, found, -, listed⟩ := primaries (.here none) d d.path
    (Definition.at?_here.mpr ⟨rfl, rfl⟩) rfl
  have first : d.place (.here none) = 0 := Nat.zero_mul _
  rw [first, Nat.add_zero] at found listed
  rw [Registry.childAt?, Option.bind_some, found, Option.bind_some, listed,
    Definition.getElem?_firsts child, Definition.childPlace]
  congr 1
  omega

theorem Primaries.nested (primaries : Primaries r d base) {index : Nat} {c : Definition}
    (child : d.children[index]? = some c) : Primaries r c (base + d.childPlace index) := by
  intro s node raw valid primary
  have above := primaries (.nested none index s) node raw
    (Definition.at?_nested.mpr ⟨⟨_, rfl⟩, c, child, valid⟩) (by rw [Site.primary, primary])
  have isPlace : base + d.place (.nested none index s) =
      base + d.childPlace index + c.place s := by
    have zero : rank none = 0 := rfl
    rw [Definition.place_nested child, zero]
    omega
  rw [isPlace] at above
  exact above

theorem primaries_of_nested (found : r.get? base = some e) (noAlias : e.aliasOf = none)
    (listed : e.children = firsts (base + 1) d.children)
    (nested : ∀ index c, d.children[index]? = some c →
      Primaries r c (base + d.childPlace index)) : Primaries r d base := by
  have zero : rank none = 0 := rfl
  intro s node raw valid primary
  cases s with
  | here choice =>
    obtain ⟨-, rfl⟩ := Definition.at?_here.mp valid
    rw [Site.primary] at primary
    have first : node.place (.here choice) = 0 := by
      rw [← primary]
      exact Nat.zero_mul _
    rw [first]
    exact ⟨e, found, noAlias, listed⟩
  | nested choice index below =>
    obtain ⟨-, c, child, inside⟩ := Definition.at?_nested.mp valid
    obtain ⟨rfl, -, same⟩ := Site.nested.inj primary
    have isPlace : base + d.place (.nested none index below) =
        base + d.childPlace index + c.place below := by
      rw [Definition.place_nested child, zero]
      omega
    rw [isPlace]
    exact nested index c child below node raw inside same

/-- The sites of a definition are those of its paths. -/
theorem sited_of_paths (paths : ∀ choice raw, d.path? choice = some raw →
      PathSited r options d raw (base + rank choice * d.width) parent
        (if choice = none then original else some (original.getD base))) :
    Sited r options d base parent original := by
  intro s node raw valid
  cases s with
  | here choice =>
    obtain ⟨chosen, rfl⟩ := Definition.at?_here.mp valid
    obtain ⟨e, holds⟩ := (paths choice raw chosen).own
    have isOriginal : node.originalAt base original (.here choice) =
        if choice = none then original else some (original.getD base) := by
      have first : node.place (.here none) = 0 := Nat.zero_mul _
      cases choice <;> cases original <;> simp [Definition.originalAt, Site.primary, first]
    rw [isOriginal]
    exact ⟨e, holds⟩
  | nested choice index below =>
    obtain ⟨⟨above, chosen⟩, c, child, inside⟩ := Definition.at?_nested.mp valid
    obtain ⟨e, holds⟩ := (paths choice above chosen).nested child below node raw inside
    rw [Definition.parentAt_nested child, Definition.originalAt_nested child,
      Definition.place_nested child]
    rw [Nat.add_assoc] at holds
    rw [← Nat.add_assoc (rank choice * d.width), ← Nat.add_assoc base]
    exact ⟨e, by simpa only [Nat.add_assoc] using holds⟩

/-! ### The recursion -/

/-- What entering a plan of the definition does: the numbers from the next one on belong to its
sites. -/
structure Placed (options : RouterOptions) (d : Definition) (parent original : Option Nat)
    (r r' : Registry) : Prop where
  nextId : r'.nextId = r.nextId + d.sites
  sited : Sited r' options d r.nextId parent original
  primaries : original = none → Primaries r' d r.nextId

/-- Entering a plan of the definition that is welcome gives each site its entry. -/
def PlacesWell (options : RouterOptions) (d : Definition) : Prop :=
  ∀ {r : Registry} {parent original : Option Nat} {above : Option Plan.Parent} {plan : Plan},
    Linked r → Welcomes r d plan parent original → Plan.route options d above = .ok plan →
    above.map (·.path) = r.patternOf? parent → (∀ o, original = some o → Primaries r d o) →
    Placed options d parent original r (r.commit parent original plan)

/-- What entering plans under an entry does: the numbers from the next one on belong to the sites of
the definitions, which are children of `d` from an index on.  An entry that is no alias lists the
first of them. -/
structure ChildrenPlaced (options : RouterOptions) (d : Definition) (ds : List Definition)
    (parent : Nat) (original : Option Nat) (index : Nat) (r r' : Registry) : Prop where
  nextId : r'.nextId = r.nextId + sitesOfAll ds
  sited {i : Nat} {c : Definition} : ds[i]? = some c →
    Sited r' options c (r.nextId + sitesOfAll (ds.take i)) (some parent)
      (original.map (· + d.childPlace (index + i)))
  primaries {i : Nat} {c : Definition} : original = none → ds[i]? = some c →
    Primaries r' c (r.nextId + sitesOfAll (ds.take i))
  listed {e : Entry} : original = none → r.get? parent = some e →
    ∃ aliases, r'.get? parent = some (e.extend (firsts r.nextId ds) aliases)

/-- A tree that is entered first and the trees that are entered behind it. -/
theorem ChildrenPlaced.cons {middle : Registry} {p index : Nat} {ds : List Definition}
    {other : Option Nat} (linked : Linked middle) (older : p < r.nextId)
    (first : Placed options c (some p) (original.map (· + d.childPlace index)) r middle)
    (listed : ∀ e, original = none → r.get? p = some e →
      ∃ aliases, middle.get? p = some (e.extend [r.nextId] aliases))
    (grown : Grown (some p) other middle r')
    (rest : ChildrenPlaced options d ds p original (index + 1) middle r') :
    ChildrenPlaced options d (c :: ds) p original index r r' where
  nextId := by rw [rest.nextId, first.nextId, sitesOfAll, Nat.add_assoc]
  sited := by
    intro i c' child
    cases i with
    | zero =>
      obtain rfl := Option.some.inj child
      exact first.sited.grown linked grown
    | succ i =>
      have sited := rest.sited child
      rw [first.nextId, Nat.add_assoc, Nat.add_right_comm index] at sited
      exact sited
  primaries := by
    intro i c' isOriginal child
    cases i with
    | zero =>
      obtain rfl := Option.some.inj child
      refine primaries_grown grown ?_ (first.primaries (by rw [isOriginal, Option.map_none]))
      rintro _ ⟨⟩
      exact Or.inl older
    | succ i =>
      have primaries := rest.primaries isOriginal child
      rw [first.nextId, Nat.add_assoc] at primaries
      exact primaries
  listed := by
    intro e isOriginal found
    obtain ⟨aliases, found'⟩ := listed e isOriginal found
    obtain ⟨others, found''⟩ := rest.listed isOriginal found'
    rw [Entry.extend_extend, first.nextId] at found''
    exact ⟨_, found''⟩

theorem placed_commitChildren {above : Plan.Parent} {p : Nat}
    (all : ∀ c ∈ d.children, PlacesWell options c) {plans : List Plan} :
    ∀ {r : Registry} {ds : List Definition} {index : Nat}, Linked r →
      Nests r ds plans p original index → d.children.drop index = ds →
      List.Forall₂ (fun c plan => Plan.route options c (some above) = .ok plan) ds plans →
      r.patternOf? (some p) = some above.path → (∀ o, original = some o → Primaries r d o) →
      ChildrenPlaced options d ds p original index r (r.commitChildren p original index plans) := by
  induction plans with
  | nil =>
    intro r ds index h n _ planned _ _
    obtain rfl := List.forall₂_nil_right_iff.mp planned
    rw [commitChildren]
    refine ⟨rfl, fun child => absurd child (by simp), fun _ child => absurd child (by simp), ?_⟩
    intro e _ found
    exact ⟨[], by rw [firsts, Entry.extend_nil]; exact found⟩
  | cons plan rest ih =>
    intro r ds index h n dropped planned pattern numbered
    obtain ⟨c, ds', made, plannedRest, rfl⟩ := List.forall₂_cons_right_iff.mp planned
    have child : d.children[index]? = some c := by
      rw [← List.head?_drop, dropped, List.head?_cons]
    have droppedRest : d.children.drop (index + 1) = ds' := by
      rw [← List.drop_drop, dropped, List.drop_one, List.tail_cons]
    obtain ⟨pe, foundP, isAlias⟩ := n.parent_live
    -- the child of the original is the first site of the same child
    have paired : r.childAt? original index = original.map (· + d.childPlace index) := by
      cases original with
      | none => rfl
      | some o => exact (numbered o rfl).childAt? child
    have first : Placed options c (some p) (r.childAt? original index) r
        (r.commit (some p) (r.childAt? original index) plan) := by
      refine all c (List.mem_of_getElem? child) h (n.welcomes h) made pattern.symm ?_
      intro o' isOriginal'
      rw [paired] at isOriginal'
      obtain ⟨o, isOriginal, rfl⟩ := Option.map_eq_some_iff.mp isOriginal'
      exact (numbered o isOriginal).nested child
    obtain ⟨entered, -⟩ := entersWell plan h (n.welcomes h)
    have next := n.next h entered
    have second := ih entered.linked next droppedRest plannedRest
      ((entered.grown.patternOf? (by rintro _ ⟨⟩; exact ⟨pe, foundP⟩)).trans pattern) (by
        intro o isOriginal
        refine primaries_grown entered.grown ?_ (numbered o isOriginal)
        rintro _ ⟨⟩
        exact Or.inr ⟨pe, foundP, by rw [Entry.isAlias, isAlias, isOriginal]; rfl⟩)
    obtain ⟨_, enteredRest, -⟩ := entered_commitChildren (fun plan _ => entersWell plan)
      entered.linked next
    rw [commitChildren]
    refine ChildrenPlaced.cons entered.linked (h.lt_nextId foundP) (paired ▸ first) ?_
      enteredRest.grown second
    intro e isOriginal found
    rw [found] at foundP
    obtain rfl := Option.some.inj foundP
    obtain ⟨aliases, found'⟩ := entered.top rfl found (isAlias.trans isOriginal)
    have got : r.childrenGot (r.childAt? original index) = [r.nextId] := by
      rw [paired, isOriginal]
      rfl
    rw [got] at found'
    exact ⟨aliases, found'⟩

/-- What entering one path of the definition does. -/
structure PathPlaced (options : RouterOptions) (d : Definition) (raw : String)
    (parent original : Option Nat) (r r' : Registry) : Prop where
  nextId : r'.nextId = r.nextId + d.width
  sited : PathSited r' options d raw r.nextId parent original
  primaries : original = none → Primaries r' d r.nextId

theorem placed_path {above : Option Plan.Parent} {m : Matcher} {children aliases : List Plan}
    (all : ∀ c ∈ d.children, PlacesWell options c) (h : Linked r)
    (w : Welcomes r d (.node d m children aliases) parent original)
    (made : Plan.variant options d above (Plan.routes options d.children) raw =
      .ok (.node d m children []))
    (pattern : above.map (·.path) = r.patternOf? parent)
    (numbered : ∀ o, original = some o → Primaries r d o) :
    PathPlaced options d raw parent original r
      ((r.register d m parent original).commitChildren r.nextId original 0 children) := by
  obtain ⟨m', children', compiled, inner, same⟩ := Plan.variant_eq_ok made
  obtain ⟨-, rfl, rfl, -⟩ := Plan.node.inj same
  have admitted := w.admits h
  have own := entered_register h m admitted
  have found := get?_register_self (d := d) (m := m) (admitted.parent_ne h)
    (admitted.original_ne h)
  have originals : ∀ o, original = some o → ∃ e, r.get? o = some e := by
    intro o isOriginal
    obtain ⟨e, foundO, -⟩ := admitted.original_live isOriginal
    exact ⟨e, foundO⟩
  have holds : Holds (r.register d m parent original) options d raw parent original r.nextId
      (r.newEntry d m parent original) := by
    refine ⟨found, rfl, rfl, ?_, ?_⟩
    · rw [own.grown.patternOf? fun _ => w.parent_live, ← pattern]
      exact compiled
    · rw [own.grown.recordId? fun _ => w.parent_live, own.grown.recordId? originals,
        own.grown.lineage]
      rfl
  have nests := w.nests h
  have below := placed_commitChildren all own.linked nests rfl (Plan.routes_eq_ok inner)
    (by rw [patternOf?, Option.bind_some, found]; rfl) (by
      intro o isOriginal
      refine primaries_grown own.grown ?_ (numbered o isOriginal)
      exact (w.beside isOriginal).outside h (originals o isOriginal) fun _ => w.parent_live)
  obtain ⟨_, enteredBelow, -⟩ := entered_commitChildren (fun plan _ => entersWell plan)
    own.linked nests
  refine ⟨?_, ⟨holds_grown own.linked enteredBelow.grown holds, ?_⟩, ?_⟩
  · rw [below.nextId, nextId_register, Definition.width]
    omega
  · intro index c child
    have sited := below.sited child
    rw [nextId_register, Nat.zero_add, Nat.add_assoc, Nat.add_comm 1] at sited
    exact sited
  · intro isOriginal
    obtain ⟨others, found'⟩ := below.listed isOriginal found
    refine primaries_of_nested found' isOriginal ?_ ?_
    · rw [Entry.extend_children, nextId_register]
      rfl
    · intro index c child
      have primaries := below.primaries isOriginal child
      rw [nextId_register, Nat.add_assoc, Nat.add_comm 1] at primaries
      exact primaries

theorem placed_commitAliases {above : Option Plan.Parent} {o : Nat}
    (all : ∀ c ∈ d.children, PlacesWell options c) {plans : List Plan} :
    ∀ {r : Registry} {raws : List String}, Linked r → (∀ plan ∈ plans, Plan.Follows d plan) →
      AwaitsAliases r d parent o → Primaries r d o → above.map (·.path) = r.patternOf? parent →
      List.Forall₂ (fun raw plan =>
        Plan.variant options d above (Plan.routes options d.children) raw = .ok plan) raws plans →
      (r.commitAliases parent o plans).nextId = r.nextId + raws.length * d.width ∧
        ∀ i raw, raws[i]? = some raw →
          PathSited (r.commitAliases parent o plans) options d raw (r.nextId + i * d.width) parent
            (some o) := by
  induction plans with
  | nil =>
    intro r raws h _ _ _ _ planned
    obtain rfl := List.forall₂_nil_right_iff.mp planned
    rw [commitAliases]
    refine ⟨by simp, fun i raw member => absurd member (by simp)⟩
  | cons plan rest ih =>
    intro r raws h follows w primaries pattern planned
    obtain ⟨raw, raws', made, plannedRest, rfl⟩ := List.forall₂_cons_right_iff.mp planned
    have welcome := w.welcomes (follows plan List.mem_cons_self)
    obtain ⟨entered, -⟩ := entersWell plan h welcome
    have followsRest : ∀ plan ∈ rest, Plan.Follows d plan := fun plan member =>
      follows plan (List.mem_cons_of_mem _ member)
    have next := w.next h entered.grown
    have enteredRest := entered_commitAliases (fun plan _ => entersWell plan) entered.linked
      followsRest next
    have first : PathPlaced options d raw parent (some o) r (r.commit parent (some o) plan) := by
      obtain ⟨m, children, -, -, rfl⟩ := Plan.variant_eq_ok made
      rw [commit, commitAliases]
      refine placed_path all h welcome made pattern ?_
      rintro _ ⟨⟩
      exact primaries
    have outside := w.beside.outside h w.live fun _ => w.parent_live
    obtain ⟨nextId, sited⟩ := ih entered.linked followsRest next
      (primaries_grown entered.grown outside primaries)
      (pattern.trans (entered.grown.patternOf? fun _ => w.parent_live).symm) plannedRest
    rw [commitAliases]
    refine ⟨?_, ?_⟩
    · rw [nextId, first.nextId, List.length_cons, Nat.succ_mul]
      omega
    · intro i raw' member
      cases i with
      | zero =>
        obtain rfl := Option.some.inj member
        rw [Nat.zero_mul]
        exact first.sited.grown entered.linked enteredRest.grown
      | succ i =>
        have later := sited i raw' member
        rw [first.nextId, Nat.add_assoc, Nat.add_comm d.width, ← Nat.succ_mul] at later
        exact later

/-- Entering a plan that is welcome gives each site of its definition the entry with the site's
number. -/
theorem placesWell (options : RouterOptions) (d : Definition) : PlacesWell options d := by
  induction d using Plan.definition_induction with
  | step d all =>
    intro r parent original above plan h w planned pattern numbered
    obtain ⟨m, children, aliases, rfl, primary, others⟩ := Plan.route_eq_ok planned
    obtain ⟨-, -, follows⟩ := Plan.follows_node.mp w.follows
    have first := placed_path all h w primary pattern numbered
    obtain ⟨entered, awaits⟩ := entered_path (fun plan _ => entersWell plan) h w
    have enteredOthers := entered_commitAliases (fun plan _ => entersWell plan) entered.linked
      follows awaits
    have primaries : Primaries ((r.register d m parent original).commitChildren r.nextId original
        0 children) d (original.getD r.nextId) := by
      cases original with
      | none => exact first.primaries rfl
      | some o =>
        obtain ⟨oe, foundO, -⟩ := (w.admits h).original_live rfl
        refine primaries_grown entered.grown ?_ (numbered o rfl)
        exact (w.beside rfl).outside h ⟨oe, foundO⟩ fun _ => w.parent_live
    obtain ⟨nextId, sited⟩ := placed_commitAliases all entered.linked follows awaits primaries
      (pattern.trans (entered.grown.patternOf? fun _ => w.parent_live).symm)
      (others.imp fun _ _ made => made.1)
    rw [commit]
    refine ⟨?_, sited_of_paths ?_, ?_⟩
    · rw [nextId, first.nextId, Definition.sites_eq, Nat.succ_mul]
      omega
    · intro choice raw chosen
      cases choice with
      | none =>
        obtain rfl := Option.some.inj chosen
        rw [if_pos rfl, rank, Nat.zero_mul]
        exact first.sited.grown entered.linked enteredOthers.grown
      | some place =>
        have later := sited place raw chosen
        rw [first.nextId, Nat.add_assoc, Nat.add_comm d.width, ← Nat.succ_mul] at later
        rw [if_neg (by simp), rank]
        exact later
    · intro isOriginal
      refine primaries_grown enteredOthers.grown ?_ (first.primaries isOriginal)
      intro p isParent
      obtain ⟨e, found⟩ := w.parent_live isParent
      exact Or.inl (h.lt_nextId found)

end Registry
end Waymark
