/-
The sites of a definition.

A definition stands for a route at every node of its tree and under every choice, for
the node and for each one above it, between the primary path and an alias.  Such a
node with its choices is a `Site`.  The sites are counted off in the order in which
plans are entered: a path itself, then what is nested under it, then the aliases one
by one, each with what is nested under it once more.

* `at?_primary`, `at?_above` — a node has a site with primary paths only, and, below the
  root, the node above has a site with the same paths;
* `place_lt_sites`, `place_inj`, `exists_place_eq` — every number below the number of
  sites is the place of exactly one site;
* `mem_names`, `names_of_follows` — a plan's names are those of the sites with primary
  paths only.
-/
import Mathlib.Data.Set.Function
import Waymark.Proofs.Plan.Shape

namespace Waymark

/-- A node in the tree of a definition, together with a path for it and for each node above it:
the primary one, or an alias by its place in the list of aliases. -/
inductive Site
  | here (choice : Option Nat)
  | nested (choice : Option Nat) (index : Nat) (below : Site)
  deriving Repr, DecidableEq

namespace Site

/-- The site of the same node where every path is the primary one. -/
def primary : Site → Site
  | here _ => here none
  | nested _ index below => nested none index below.primary

/-- The site of the node above, where the paths are the same. -/
def above? : Site → Option Site
  | here _ => none
  | nested choice index below =>
    match below.above? with
    | none => some (here choice)
    | some above => some (nested choice index above)

end Site

namespace Definition

variable {d c node : Definition} {raw : String} {s t : Site}

/-- The path that is chosen. -/
def path? (d : Definition) : Option Nat → Option String
  | none => some d.path
  | some place => d.aliases[place]?

/-- The node of a site and its path. -/
def at? (d : Definition) : Site → Option (Definition × String)
  | .here choice => (d.path? choice).map fun raw => (d, raw)
  | .nested choice index below =>
    (d.path? choice).bind fun _ => d.children[index]?.bind fun c => c.at? below

mutual

/-- How many sites a definition has. -/
def sites : Definition → Nat
  | { children, aliases, .. } => (aliases.length + 1) * (sitesOfAll children + 1)

/-- How many sites several definitions have. -/
def sitesOfAll : List Definition → Nat
  | [] => 0
  | d :: rest => d.sites + sitesOfAll rest

end

/-- How many sites lie at or below a definition under one of its paths. -/
def width (d : Definition) : Nat := sitesOfAll d.children + 1

/-- How many paths come before the chosen one. -/
def rank : Option Nat → Nat
  | none => 0
  | some place => place + 1

/-- How many sites come before those of a child, under one path of the parent. -/
def childPlace (d : Definition) (index : Nat) : Nat := sitesOfAll (d.children.take index) + 1

/-- How many sites come before a site. -/
def place (d : Definition) : Site → Nat
  | .here choice => rank choice * d.width
  | .nested choice index below =>
    rank choice * d.width + d.childPlace index +
      d.children[index]?.elim 0 fun c => c.place below

/-! ### Nodes -/

theorem at?_here {choice : Option Nat} :
    d.at? (.here choice) = some (node, raw) ↔ d.path? choice = some raw ∧ node = d := by
  rw [at?, Option.map_eq_some_iff]
  constructor
  · rintro ⟨_, chosen, ⟨⟩⟩
    exact ⟨chosen, rfl⟩
  · rintro ⟨chosen, rfl⟩
    exact ⟨raw, chosen, rfl⟩

theorem at?_nested {choice : Option Nat} {index : Nat} {below : Site} :
    d.at? (.nested choice index below) = some (node, raw) ↔
      (∃ above, d.path? choice = some above) ∧
        ∃ c, d.children[index]? = some c ∧ c.at? below = some (node, raw) := by
  simp only [at?, Option.bind_eq_some_iff, exists_and_right]

/-- The node has a site where every path is the primary one. -/
theorem at?_primary (valid : d.at? s = some (node, raw)) :
    d.at? s.primary = some (node, node.path) := by
  induction s generalizing d with
  | here choice =>
    obtain ⟨-, rfl⟩ := at?_here.mp valid
    exact at?_here.mpr ⟨rfl, rfl⟩
  | nested choice index below ih =>
    obtain ⟨-, c, child, inside⟩ := at?_nested.mp valid
    exact at?_nested.mpr ⟨⟨_, rfl⟩, c, child, ih inside⟩

/-- The node above has a site with the same paths, of which the node is a child. -/
theorem at?_above (valid : d.at? s = some (node, raw)) {up : Site} (above : s.above? = some up) :
    ∃ upper upperRaw, d.at? up = some (upper, upperRaw) ∧ node ∈ upper.children := by
  induction s generalizing d up with
  | here choice => exact absurd above (by simp [Site.above?])
  | nested choice index below ih =>
    obtain ⟨⟨chosen, isPath⟩, c, child, inside⟩ := at?_nested.mp valid
    rw [Site.above?] at above
    split at above
    · rename_i isTop
      obtain rfl := Option.some.inj above
      refine ⟨d, chosen, at?_here.mpr ⟨isPath, rfl⟩, ?_⟩
      -- what is nested without a site above is the child itself
      cases below with
      | here choice' =>
        obtain ⟨-, rfl⟩ := at?_here.mp inside
        exact List.mem_of_getElem? child
      | nested choice' index' below' =>
        rw [Site.above?] at isTop
        split at isTop <;> exact absurd isTop (by simp)
    · rename_i up' above'
      obtain rfl := Option.some.inj above
      obtain ⟨upper, upperRaw, valid', member⟩ := ih inside above'
      exact ⟨upper, upperRaw, at?_nested.mpr ⟨⟨chosen, isPath⟩, c, child, valid'⟩, member⟩

/-! ### Counting -/

theorem sites_eq (d : Definition) : d.sites = (d.aliases.length + 1) * d.width := by
  obtain ⟨path, name, component, components, ds, aliases, metadata, guards, props, redirect,
    caseInsensitive, strict⟩ := d
  rw [sites, width]

theorem path?_isSome {choice : Option Nat} :
    (∃ raw, d.path? choice = some raw) ↔ rank choice < d.aliases.length + 1 := by
  cases choice with
  | none => simp [path?, rank]
  | some place => simp [path?, rank, ← Option.isSome_iff_exists]

/-- The sites of a definition come before those of the ones after it. -/
theorem sitesOfAll_take {ds : List Definition} {i j : Nat} (member : ds[i]? = some c)
    (before : i < j) : sitesOfAll (ds.take i) + c.sites ≤ sitesOfAll (ds.take j) := by
  induction ds generalizing i j with
  | nil => exact absurd member (by simp)
  | cons d rest ih =>
    obtain ⟨j, rfl⟩ := Nat.exists_eq_add_one_of_ne_zero (Nat.ne_of_gt (Nat.zero_lt_of_lt before))
    rw [List.take_succ_cons, sitesOfAll]
    cases i with
    | zero =>
      obtain rfl := Option.some.inj member
      rw [List.take_zero, sitesOfAll]
      omega
    | succ i =>
      rw [List.take_succ_cons, sitesOfAll]
      have := ih member (Nat.lt_of_succ_lt_succ before)
      omega

theorem exists_of_lt_sitesOfAll {ds : List Definition} {n : Nat} (low : n < sitesOfAll ds) :
    ∃ i c, ds[i]? = some c ∧ sitesOfAll (ds.take i) ≤ n ∧
      n < sitesOfAll (ds.take i) + c.sites := by
  induction ds generalizing n with
  | nil => exact absurd low (by simp [sitesOfAll])
  | cons d rest ih =>
    by_cases first : n < d.sites
    · exact ⟨0, d, rfl, by simp [sitesOfAll], by simpa [sitesOfAll] using first⟩
    · rw [sitesOfAll] at low
      obtain ⟨i, c, member, low', high⟩ := ih (n := n - d.sites) (by omega)
      refine ⟨i + 1, c, member, ?_, ?_⟩ <;> rw [List.take_succ_cons, sitesOfAll] <;> omega

theorem place_nested {choice : Option Nat} {index : Nat} {below : Site}
    (child : d.children[index]? = some c) :
    d.place (.nested choice index below) =
      rank choice * d.width + (d.childPlace index + c.place below) := by
  rw [place, child, Option.elim_some, Nat.add_assoc]

/-- What is nested under a path comes between the path and the next one. -/
theorem childPlace_add_sites_le {index : Nat} (child : d.children[index]? = some c) :
    d.childPlace index + c.sites ≤ d.width := by
  have inside := (List.getElem?_eq_some_iff.mp child).1
  have := sitesOfAll_take child inside
  rw [List.take_length] at this
  rw [childPlace, width]
  omega

theorem place_lt_sites (valid : d.at? s = some (node, raw)) : d.place s < d.sites := by
  induction s generalizing d with
  | here choice =>
    have ranked := path?_isSome.mp ⟨raw, (at?_here.mp valid).1⟩
    rw [place, sites_eq]
    exact Nat.mul_lt_mul_of_pos_right ranked (Nat.succ_pos _)
  | nested choice index below ih =>
    obtain ⟨chosen, c, child, inside⟩ := at?_nested.mp valid
    have ranked := path?_isSome.mp chosen
    have fits := childPlace_add_sites_le child
    have low := ih inside
    rw [place_nested child, sites_eq]
    calc rank choice * d.width + (d.childPlace index + c.place below)
        < rank choice * d.width + d.width := by omega
      _ = (rank choice + 1) * d.width := by rw [Nat.succ_mul]
      _ ≤ (d.aliases.length + 1) * d.width := Nat.mul_le_mul_right _ ranked

theorem rank_inj {a b : Option Nat} (same : rank a = rank b) : a = b := by
  cases a <;> cases b <;> simp_all [rank]

/-- A place tells the path and what is left of the place under this path. -/
theorem rank_mul_add_inj {a b : Option Nat} {x y w : Nat} (lowX : x < w) (lowY : y < w)
    (same : rank a * w + x = rank b * w + y) : a = b ∧ x = y := by
  have pos : 0 < w := Nat.zero_lt_of_lt lowX
  obtain ⟨quotient, remainder⟩ := (Nat.div_mod_unique pos).mpr
    ⟨show x + w * rank a = rank a * w + x by rw [Nat.mul_comm, Nat.add_comm], lowX⟩
  obtain ⟨quotient', remainder'⟩ := (Nat.div_mod_unique pos).mpr
    ⟨show y + w * rank b = rank a * w + x by rw [same, Nat.mul_comm, Nat.add_comm], lowY⟩
  exact ⟨rank_inj (quotient.symm.trans quotient'), remainder.symm.trans remainder'⟩

/-- Two children whose sites have a place in common are the same child. -/
theorem childPlace_inj {i j x y : Nat} {ci cj : Definition} (childI : d.children[i]? = some ci)
    (childJ : d.children[j]? = some cj) (lowX : x < ci.sites) (lowY : y < cj.sites)
    (same : d.childPlace i + x = d.childPlace j + y) : i = j := by
  rw [childPlace, childPlace] at same
  rcases Nat.lt_trichotomy i j with before | rfl | after
  · have := sitesOfAll_take childI before
    omega
  · rfl
  · have := sitesOfAll_take childJ after
    omega

theorem place_inj {node' : Definition} {raw' : String} (validS : d.at? s = some (node, raw))
    (validT : d.at? t = some (node', raw')) (same : d.place s = d.place t) : s = t := by
  -- what is nested does not have the place of the path that it is nested under
  have inner : ∀ {d c node : Definition} {index : Nat} {below : Site} {raw : String},
      d.children[index]? = some c → c.at? below = some (node, raw) →
        0 < d.childPlace index + c.place below ∧ d.childPlace index + c.place below < d.width := by
    intro d c node index below raw child inside
    have := place_lt_sites inside
    have := childPlace_add_sites_le child
    have : 0 < d.childPlace index := Nat.succ_pos _
    omega
  induction s generalizing d t with
  | here choice =>
    cases t with
    | here choice' =>
      rw [place, place] at same
      rw [(rank_mul_add_inj (Nat.succ_pos _) (Nat.succ_pos _) (congrArg (· + 0) same)).1]
    | nested choice' index' below' =>
      obtain ⟨-, c', child', inside'⟩ := at?_nested.mp validT
      rw [place, place_nested child'] at same
      have := (rank_mul_add_inj (Nat.succ_pos _) (inner child' inside').2
        ((Nat.add_zero _).trans same)).2
      exact absurd this (Nat.ne_of_lt (inner child' inside').1)
  | nested choice index below ih =>
    obtain ⟨-, c, child, inside⟩ := at?_nested.mp validS
    cases t with
    | here choice' =>
      rw [place, place_nested child] at same
      have := (rank_mul_add_inj (inner child inside).2 (Nat.succ_pos _)
        (same.trans (Nat.add_zero _).symm)).2
      exact absurd this.symm (Nat.ne_of_lt (inner child inside).1)
    | nested choice' index' below' =>
      obtain ⟨-, c', child', inside'⟩ := at?_nested.mp validT
      rw [place_nested child, place_nested child'] at same
      obtain ⟨rfl, rest⟩ := rank_mul_add_inj (inner child inside).2 (inner child' inside').2 same
      obtain rfl :=
        childPlace_inj child child' (place_lt_sites inside) (place_lt_sites inside') rest
      rw [child] at child'
      obtain rfl := Option.some.inj child'
      rw [ih inside inside' (Nat.add_left_cancel rest)]

theorem exists_place_eq {n : Nat} (low : n < d.sites) :
    ∃ s node raw, d.at? s = some (node, raw) ∧ d.place s = n := by
  induction d using Plan.definition_induction generalizing n with
  | step d ih =>
    rw [sites_eq] at low
    -- the quotient is the path, and the remainder the place under this path
    have ranked : n / d.width < d.aliases.length + 1 := Nat.div_lt_of_lt_mul (by
      rw [Nat.mul_comm]
      exact low)
    obtain ⟨choice, isRank⟩ : ∃ choice, rank choice = n / d.width := by
      cases n / d.width with
      | zero => exact ⟨none, rfl⟩
      | succ place => exact ⟨some place, rfl⟩
    rw [← isRank] at ranked
    obtain ⟨raw, chosen⟩ := path?_isSome.mpr ranked
    have whole : rank choice * d.width + n % d.width = n := by
      rw [isRank, Nat.mul_comm]
      exact Nat.div_add_mod n d.width
    cases rest : n % d.width with
    | zero =>
      refine ⟨.here choice, d, raw, at?_here.mpr ⟨chosen, rfl⟩, ?_⟩
      rw [place]
      omega
    | succ k =>
      have lowK : k < sitesOfAll d.children := by
        have := Nat.mod_lt n (show 0 < d.width from Nat.succ_pos _)
        rw [rest, width] at this
        exact Nat.lt_of_succ_lt_succ this
      obtain ⟨i, c, child, first, last⟩ := exists_of_lt_sitesOfAll lowK
      obtain ⟨below, node, inner, inside, isPlace⟩ := ih c (List.mem_of_getElem? child)
        (n := k - sitesOfAll (d.children.take i)) (by omega)
      refine ⟨.nested choice i below, node, inner,
        at?_nested.mpr ⟨⟨raw, chosen⟩, c, child, inside⟩, ?_⟩
      rw [place_nested child, childPlace]
      omega

/-- Counted from a base, the sites have the numbers from the base on, each of them one. -/
theorem bijOn_place (d : Definition) (base : Nat) :
    Set.BijOn (fun s => base + d.place s) {s | (d.at? s).isSome}
      {n | base ≤ n ∧ n < base + d.sites} := by
  refine ⟨fun s valid => ?_, fun s validS t validT same => ?_, fun n inside => ?_⟩
  · obtain ⟨⟨node, raw⟩, valid⟩ := Option.isSome_iff_exists.mp valid
    exact ⟨Nat.le_add_right _ _, Nat.add_lt_add_left (place_lt_sites valid) _⟩
  · obtain ⟨⟨node, raw⟩, validS⟩ := Option.isSome_iff_exists.mp validS
    obtain ⟨⟨node', raw'⟩, validT⟩ := Option.isSome_iff_exists.mp validT
    exact place_inj validS validT (Nat.add_left_cancel same)
  · obtain ⟨low, high⟩ := inside
    obtain ⟨s, node, raw, valid, isPlace⟩ := exists_place_eq (d := d) (n := n - base) (by omega)
    refine ⟨s, Option.isSome_iff_exists.mpr ⟨_, valid⟩, ?_⟩
    show base + d.place s = n
    omega

/-! ### Names -/

mutual

/-- The names of the nodes. -/
def names : Definition → List String
  | { name, children, .. } => name.toList ++ namesOfAll children

/-- The names of the nodes of several definitions. -/
def namesOfAll : List Definition → List String
  | [] => []
  | d :: rest => d.names ++ namesOfAll rest

end

theorem names_eq (d : Definition) : d.names = d.name.toList ++ namesOfAll d.children := by
  obtain ⟨path, name, component, components, ds, aliases, metadata, guards, props, redirect,
    caseInsensitive, strict⟩ := d
  rw [names]

theorem mem_namesOfAll {name : String} {ds : List Definition} :
    name ∈ namesOfAll ds ↔ ∃ c ∈ ds, name ∈ c.names := by
  induction ds with
  | nil => simp [namesOfAll]
  | cons d rest ih => rw [namesOfAll, List.mem_append, ih, List.exists_mem_cons_iff]

/-- Each name is that of a node at a site where every path is the primary one. -/
theorem mem_names {name : String} :
    name ∈ d.names ↔ ∃ s node raw, d.at? s = some (node, raw) ∧ s.primary = s ∧
      node.name = some name := by
  induction d using Plan.definition_induction with
  | step d ih =>
    rw [names_eq, List.mem_append, Option.mem_toList, mem_namesOfAll]
    constructor
    · rintro (own | ⟨c, member, inside⟩)
      · exact ⟨.here none, d, d.path, at?_here.mpr ⟨rfl, rfl⟩, rfl, own⟩
      · obtain ⟨s, node, raw, valid, primary, named⟩ := (ih c member).mp inside
        obtain ⟨index, child⟩ := List.mem_iff_getElem?.mp member
        refine ⟨.nested none index s, node, raw, at?_nested.mpr ⟨⟨_, rfl⟩, c, child, valid⟩, ?_,
          named⟩
        rw [Site.primary, primary]
    · rintro ⟨s, node, raw, valid, primary, named⟩
      cases s with
      | here choice =>
        obtain ⟨-, rfl⟩ := at?_here.mp valid
        exact Or.inl named
      | nested choice index below =>
        obtain ⟨-, c, child, inside⟩ := at?_nested.mp valid
        have member := List.mem_of_getElem? child
        rw [Site.primary] at primary
        exact Or.inr ⟨c, member,
          (ih c member).mpr ⟨below, node, raw, inside, (Site.nested.inj primary).2.2, named⟩⟩

/-- A plan has the names of its definition. -/
theorem names_of_follows {plan : Plan} (follows : Plan.Follows d plan) : plan.names = d.names := by
  induction d using Plan.definition_induction generalizing plan with
  | step d ih =>
    obtain ⟨d', m, children, aliases⟩ := plan
    obtain ⟨rfl, below, -⟩ := Plan.follows_node.mp follows
    have nested : ∀ {ds : List Definition} {plans : List Plan}, (∀ c ∈ ds, c ∈ d'.children) →
        List.Forall₂ Plan.Follows ds plans → Plan.namesOfAll plans = namesOfAll ds := by
      intro ds plans members each
      induction each with
      | nil => rfl
      | cons first _ rest =>
        rw [Plan.namesOfAll, namesOfAll, ih _ (members _ List.mem_cons_self) first,
          rest fun c member => members c (List.mem_cons_of_mem _ member)]
    rw [Plan.names, names_eq, nested (fun _ member => member) below]

end Definition
end Waymark
