/-
Entering a plan.

A plan is entered path by path: a path itself, then what is nested under it, then its
aliases.  What is nested under an alias is paired with what is nested under the
original by its place in the original's list of children.  `Registry.Stands` is the
invariant that makes the pairing right: below the original the registry holds the
tree of its definition, made of entries that are no aliases.

* `stands_grown` — the tree below an original stands while entries are added beside it;
* `entersWell` — entering a plan that is welcome keeps a registry linked.
-/
import Waymark.Proofs.Plan.Shape
import Waymark.Proofs.Registry.Register

namespace Waymark

/-- What holds of a plan whenever it holds of its parts holds of every plan. -/
theorem Plan.induction {motive : Plan → Prop}
    (step : ∀ d m children aliases, (∀ c ∈ children, motive c) → (∀ a ∈ aliases, motive a) →
      motive (.node d m children aliases)) (plan : Plan) : motive plan :=
  match plan with
  | .node d m children aliases =>
    step d m children aliases (fun c _ => Plan.induction step c) (fun a _ => Plan.induction step a)
termination_by sizeOf plan
decreasing_by
  · have := List.sizeOf_lt_of_mem ‹c ∈ children›
    simp only [Plan.node.sizeOf_spec]
    omega
  · have := List.sizeOf_lt_of_mem ‹a ∈ aliases›
    simp only [Plan.node.sizeOf_spec]
    omega

namespace Registry

variable {r r' : Registry} {d : Definition} {plan : Plan} {parent original : Option Nat}

mutual

/-- The entry and what is listed below it are the tree of the definition, without aliases. -/
def Stands (r : Registry) : Definition → Nat → Prop
  | { children, .. }, id =>
    ∃ e, r.get? id = some e ∧ e.aliasOf = none ∧ StandInOrder r children e.children

/-- The entries are the trees of the definitions, one for one. -/
def StandInOrder (r : Registry) : List Definition → List Nat → Prop
  | [], ids => ids = []
  | d :: rest, ids => ∃ id ids', ids = id :: ids' ∧ Stands r d id ∧ StandInOrder r rest ids'

end

theorem standInOrder_iff {ds : List Definition} {ids : List Nat} :
    StandInOrder r ds ids ↔ List.Forall₂ (Stands r) ds ids := by
  induction ds generalizing ids with
  | nil => rw [StandInOrder, List.forall₂_nil_left_iff]
  | cons d rest ih =>
    rw [StandInOrder, List.forall₂_cons_left_iff]
    constructor
    · rintro ⟨id, ids', rfl, first, others⟩
      exact ⟨id, ids', first, ih.mp others, rfl⟩
    · rintro ⟨id, ids', first, others, rfl⟩
      exact ⟨id, ids', rfl, first, ih.mpr others⟩

theorem stands_iff {id : Nat} :
    Stands r d id ↔ ∃ e, r.get? id = some e ∧ e.aliasOf = none ∧
      List.Forall₂ (Stands r) d.children e.children := by
  obtain ⟨path, name, component, components, ds, aliases, metadata, guards, props, redirect,
    caseInsensitive, strict⟩ := d
  rw [Stands]
  simp only [standInOrder_iff]

/-- New entries under `top` do not come between the tree below an entry and its definition: `top`
is older than the entry, or an alias. -/
def Outside (r : Registry) (top : Option Nat) (id : Nat) : Prop :=
  ∀ t, top = some t → t < id ∨ ∃ e, r.get? t = some e ∧ e.isAlias = true

theorem stands_grown (h : Linked r) {top : Option Nat} (g : Grown top original r r') {id : Nat}
    (outside : Outside r top id) (stands : Stands r d id) : Stands r' d id := by
  induction d using Plan.definition_induction generalizing id with
  | step d ih =>
    obtain ⟨e, found, primary, below⟩ := stands_iff.mp stands
    obtain ⟨children, aliases, found', noChildren, -⟩ := g.kept found
    have unchanged : children = [] := by
      refine noChildren fun isTop => ?_
      rcases outside id isTop with older | ⟨e', foundAlias, isAlias⟩
      · exact absurd older (Nat.lt_irrefl _)
      · rw [found] at foundAlias
        obtain rfl := Option.some.inj foundAlias
        rw [Entry.isAlias, primary] at isAlias
        exact absurd isAlias (by simp)
    rw [stands_iff]
    refine ⟨_, found', primary, ?_⟩
    rw [unchanged, Entry.extend_children, List.append_nil]
    -- the numbers below the entry are larger, so `top` is outside of them as well
    have younger : ∀ c ∈ e.children, id < c := fun c member =>
      (h.younger found (List.mem_append_left _ member)).1
    have members : ∀ c ∈ d.children, c ∈ d.children := fun _ member => member
    refine List.Forall₂.flip ?_
    refine (List.forall₂_and_left _ _ |>.mpr ⟨younger, List.Forall₂.flip
      (List.forall₂_and_left _ _ |>.mpr ⟨members, below⟩)⟩).imp ?_
    rintro c dc ⟨low, member, standsC⟩
    refine ih dc member (fun t isTop => ?_) standsC
    rcases outside t isTop with older | isAlias
    · exact Or.inl (Nat.lt_trans older low)
    · exact Or.inr isAlias

/-! ### Preconditions and results -/

/-- Under a parent that is no alias, the original is one of the parent's children. -/
def Beside (r : Registry) (parent : Option Nat) (original : Nat) : Prop :=
  ∀ p pe oe, parent = some p → r.get? p = some pe → r.get? original = some oe →
    pe.aliasOf = none → oe.parent = some p

/-- The plan may be entered: the parent is there, the tree of the definition stands below the
original, or, if there is none, the names of the plan are free and different. -/
structure Welcomes (r : Registry) (d : Definition) (plan : Plan) (parent original : Option Nat) :
    Prop where
  follows : Plan.Follows d plan
  parent_live {p : Nat} : parent = some p → ∃ e, r.get? p = some e
  stands {o : Nat} : original = some o → Stands r d o
  beside {o : Nat} : original = some o → Beside r parent o
  names : original = none → plan.names.Nodup ∧ ∀ name ∈ plan.names, r.byName.get? name = none

/-- What entering plans under a parent does: the links agree again, and apart from the new entries
only the parent's children have changed, which are longer by the given ones if the parent is no
alias, and only the given names may be taken now. -/
structure Entered (names : List String) (children : List Nat) (parent original : Option Nat)
    (r r' : Registry) : Prop where
  linked : Linked r'
  grown : Grown parent original r r'
  top {p : Nat} {pe : Entry} : parent = some p → r.get? p = some pe → pe.aliasOf = none →
    ∃ aliases, r'.get? p = some (pe.extend children aliases)
  free {name : String} : (original = none → name ∉ names) →
    r'.byName.get? name = r.byName.get? name

/-- The parent of an alias, or of what is nested under one, is outside of the original's tree. -/
theorem Beside.outside (h : Linked r) {o : Nat} (live : ∃ oe, r.get? o = some oe)
    (parent_live : ∀ p, parent = some p → ∃ e, r.get? p = some e) (beside : Beside r parent o) :
    Outside r parent o := by
  intro p isParent
  obtain ⟨oe, foundO⟩ := live
  obtain ⟨pe, foundP⟩ := parent_live p isParent
  cases isAlias : pe.aliasOf with
  | none => exact Or.inl (h.parent foundO (beside p pe oe isParent foundP foundO isAlias)).1
  | some _ => exact Or.inr ⟨pe, foundP, by rw [Entry.isAlias, isAlias]; rfl⟩

theorem Grown.get?_live {top : Option Nat} (g : Grown top original r r') {id : Nat}
    (live : ∃ e, r.get? id = some e) : ∃ e, r'.get? id = some e := by
  obtain ⟨e, found⟩ := live
  obtain ⟨children, aliases, found', -⟩ := g.kept found
  exact ⟨_, found'⟩

theorem Grown.beside {top : Option Nat} (g : Grown top original r r') {o : Nat}
    (parent_live : ∀ p, parent = some p → ∃ e, r.get? p = some e)
    (live : ∃ oe, r.get? o = some oe) (beside : Beside r parent o) : Beside r' parent o := by
  intro p pe oe isParent foundP foundO primary
  obtain ⟨pe₀, foundP₀⟩ := parent_live p isParent
  obtain ⟨oe₀, foundO₀⟩ := live
  obtain ⟨_, _, foundP', -⟩ := g.kept foundP₀
  obtain ⟨_, _, foundO', -⟩ := g.kept foundO₀
  rw [foundP] at foundP'
  rw [foundO] at foundO'
  obtain rfl := Option.some.inj foundP'
  obtain rfl := Option.some.inj foundO'
  exact beside p pe₀ oe₀ isParent foundP₀ foundO₀ primary

theorem Entered.refl (h : Linked r) (parent original : Option Nat) :
    Entered [] [] parent original r r where
  linked := h
  grown := .refl parent original r
  top := fun {_ pe} _ found _ => ⟨[], by rw [pe.extend_nil]; exact found⟩
  free := fun _ => rfl

/-- The names do not matter where everything entered is an alias. -/
theorem Entered.of_alias {names names' : List String} {children : List Nat} {o : Nat}
    (h : Entered names children parent (some o) r r') :
    Entered names' children parent (some o) r r' where
  linked := h.linked
  grown := h.grown
  top := h.top
  free := fun _ => h.free fun none => absurd none (by simp)

theorem Entered.trans (h : Linked r) {names names' : List String}
    {children children' both : List Nat} {parent' original' : Option Nat} {r'' : Registry}
    (first : Entered names children parent original r r')
    (second : Entered names' children' parent' original' r' r'')
    (under : (parent' = parent ∧ both = children ++ children') ∨
      ∃ t, parent' = some t ∧ r.nextId ≤ t ∧ both = children)
    (notOlder : NotOlder r original original') :
    Entered (names ++ names') both parent original r r'' where
  linked := second.linked
  grown := by
    refine first.grown.trans (fun _ _ => h.lt_nextId) second.grown ?_ notOlder
    rcases under with ⟨same, -⟩ | ⟨t, isTop, new, -⟩
    · exact Or.inl same
    · exact Or.inr ⟨t, isTop, new⟩
  top := by
    intro p pe isParent found primary
    obtain ⟨aliases, found'⟩ := first.top isParent found primary
    -- both steps add to the list of the parent, or the second one to that of a new entry
    rcases under with ⟨rfl, rfl⟩ | ⟨t, rfl, new, rfl⟩
    · obtain ⟨others, found''⟩ := second.top isParent found' primary
      exact ⟨_, by rw [found'', Entry.extend_extend]⟩
    · obtain ⟨more, others, found'', noMore, -⟩ := second.grown.kept found'
      have older := h.lt_nextId found
      have unchanged : more = [] := by
        refine noMore fun same => ?_
        have := Option.some.inj same
        omega
      exact ⟨_, by rw [found'', Entry.extend_extend, unchanged, List.append_nil]⟩
  free := by
    intro name unused
    rw [second.free, first.free]
    · intro none member
      exact unused none (List.mem_append_left _ member)
    · intro none' member
      cases isOriginal : original with
      | none => exact unused isOriginal (List.mem_append_right _ member)
      | some o =>
        obtain ⟨o', some', -⟩ := notOlder.after isOriginal
        rw [none'] at some'
        exact absurd some' (by simp)

/-! ### One path -/

theorem Welcomes.admits (h : Linked r) {m : Matcher} {children aliases : List Plan}
    (w : Welcomes r d (.node d m children aliases) parent original) :
    Admits r d parent original where
  parent_live := w.parent_live
  original_live := by
    intro o isOriginal
    obtain ⟨e, found, primary, -⟩ := stands_iff.mp (w.stands isOriginal)
    exact ⟨e, found, primary⟩
  apart := by
    intro p isParent isOriginal
    obtain ⟨e, found, primary, -⟩ := stands_iff.mp (w.stands isOriginal)
    -- the original would have to be its own parent
    have own := w.beside isOriginal p e e isParent found found primary
    exact absurd (h.parent found own).1 (Nat.lt_irrefl _)
  beside := fun isParent isOriginal foundP foundO primary =>
    w.beside isOriginal _ _ _ isParent foundP foundO primary
  name_free := by
    intro name isOriginal named
    refine (w.names isOriginal).2 name ?_
    rw [Plan.names, named]
    exact List.mem_append_left _ List.mem_cons_self

/-- The number that a parent which is no alias gets among its children. -/
def childrenGot (r : Registry) (original : Option Nat) : List Nat :=
  if original.isNone then [r.nextId] else []

theorem entered_register (h : Linked r) (m : Matcher) (a : Admits r d parent original) :
    Entered d.name.toList (r.childrenGot original) parent original r
      (r.register d m parent original) where
  linked := linked_register h a
  grown := grown_register h a
  top := by
    intro p pe isParent found primary
    have listed : r.newChild parent original p pe = r.childrenGot original := by
      rw [newChild, childrenGot]
      simp [isParent, Entry.isAlias, primary]
    exact ⟨_, by rw [get?_register_kept h found, listed]⟩
  free := by
    intro name unused
    rw [byName_register]
    cases named : d.name with
    | none => rfl
    | some own =>
      cases original with
      | some o => rfl
      | none =>
        have different : own ≠ name := by
          rintro rfl
          exact unused rfl (by rw [named]; exact List.mem_cons_self)
        simp only [Option.isSome_none, Bool.false_eq_true, if_false]
        exact Dict.get?_insert_of_ne _ _ different

/-! ### The recursion -/

/-- Entering the plan keeps registries linked, and leaves the tree of its definition standing. -/
def EntersWell (plan : Plan) : Prop :=
  ∀ {r : Registry} {d : Definition} {parent original : Option Nat}, Linked r →
    Welcomes r d plan parent original →
    Entered plan.names (r.childrenGot original) parent original r (r.commit parent original plan) ∧
      (original = none → Stands (r.commit parent original plan) d r.nextId)

/-- What is nested under an entry may be entered: the entry is no alias, and the names are free and
different; or it is an alias, and the trees of the definitions stand below the original from the
place on that comes next. -/
structure Nests (r : Registry) (ds : List Definition) (plans : List Plan) (parent : Nat)
    (original : Option Nat) (index : Nat) : Prop where
  follows : List.Forall₂ Plan.Follows ds plans
  parent_live : ∃ e, r.get? parent = some e ∧ e.aliasOf = original
  stand {o : Nat} : original = some o → ∃ e, r.get? o = some e ∧ e.aliasOf = none ∧
    List.Forall₂ (Stands r) ds (e.children.drop index)
  names : original = none →
    (Plan.namesOfAll plans).Nodup ∧ ∀ name ∈ Plan.namesOfAll plans, r.byName.get? name = none

/-- The first of the nested plans is paired with the original at its place, whose tree stands. -/
theorem Nests.paired (h : Linked r) {ds : List Definition} {plans : List Plan} {p index o : Nat}
    (n : Nests r (d :: ds) plans p original index) (isOriginal : original = some o) :
    ∃ c, r.childAt? original index = some c ∧ o < c ∧ Stands r d c := by
  obtain ⟨oe, foundO, -, stand⟩ := n.stand isOriginal
  obtain ⟨c, ids, stands, -, dropped⟩ := List.forall₂_cons_left_iff.mp stand
  have place : oe.children[index]? = some c := by
    rw [← List.head?_drop, dropped, List.head?_cons]
  refine ⟨c, ?_, ?_, stands⟩
  · rw [isOriginal, childAt?, Option.bind_some, foundO, Option.bind_some, place]
  · exact (h.younger foundO (List.mem_append_left _ (List.mem_of_getElem? place))).1

theorem Nests.notOlder (h : Linked r) {ds : List Definition} {plans : List Plan} {p index : Nat}
    (n : Nests r (d :: ds) plans p original index) :
    NotOlder r original (r.childAt? original index) where
  after := by
    intro o isOriginal
    obtain ⟨c, isChild, low, -⟩ := n.paired h isOriginal
    exact ⟨c, isChild, Nat.le_of_lt low⟩
  new := by
    intro o' none isChild
    rw [none] at isChild
    exact absurd isChild (by simp [childAt?])

theorem Nests.welcomes (h : Linked r) {ds : List Definition} {plans : List Plan} {p index : Nat}
    (n : Nests r (d :: ds) (plan :: plans) p original index) :
    Welcomes r d plan (some p) (r.childAt? original index) where
  follows := (List.forall₂_cons.mp n.follows).1
  parent_live := by
    rintro _ ⟨⟩
    obtain ⟨pe, foundP, -⟩ := n.parent_live
    exact ⟨pe, foundP⟩
  stands := by
    intro c isChild
    cases isOriginal : original with
    | none =>
      rw [isOriginal] at isChild
      exact absurd isChild (by simp [childAt?])
    | some o =>
      obtain ⟨c', isChild', -, stands⟩ := n.paired h isOriginal
      rw [isChild] at isChild'
      rw [Option.some.inj isChild']
      exact stands
  beside := by
    rintro c isChild _ pe' oe ⟨⟩ foundP' - primary
    -- the parent is an alias whenever the nested entry is to be one
    obtain ⟨pe, foundP, isAlias⟩ := n.parent_live
    rw [foundP] at foundP'
    rw [← Option.some.inj foundP', isAlias] at primary
    rw [primary] at isChild
    exact absurd isChild (by simp [childAt?])
  names := by
    intro noChild
    cases isOriginal : original with
    | none =>
      obtain ⟨distinct, free⟩ := n.names isOriginal
      rw [Plan.namesOfAll] at distinct free
      exact ⟨(List.nodup_append.mp distinct).1, fun name member =>
        free name (List.mem_append_left _ member)⟩
    | some o =>
      obtain ⟨c, isChild, -⟩ := n.paired h isOriginal
      rw [noChild] at isChild
      exact absurd isChild (by simp)

/-- Once the first of the nested plans is entered, the next one may be. -/
theorem Nests.next (h : Linked r) {ds : List Definition} {plans : List Plan} {p index : Nat}
    (n : Nests r (d :: ds) (plan :: plans) p original index) {children : List Nat}
    {original' : Option Nat} (e : Entered plan.names children (some p) original' r r') :
    Nests r' ds plans p original (index + 1) where
  follows := (List.forall₂_cons.mp n.follows).2
  parent_live := by
    obtain ⟨pe, foundP, isAlias⟩ := n.parent_live
    obtain ⟨_, _, foundP', -⟩ := e.grown.kept foundP
    exact ⟨_, foundP', isAlias⟩
  stand := by
    intro o isOriginal
    obtain ⟨pe, foundP, isAlias⟩ := n.parent_live
    obtain ⟨oe, foundO, primary, stand⟩ := n.stand isOriginal
    have parentIsAlias : pe.isAlias = true := by
      rw [Entry.isAlias, isAlias, isOriginal]
      rfl
    obtain ⟨more, others, foundO', noMore, -⟩ := e.grown.kept foundO
    -- the parent of what is entered is an alias, so the original is not the parent
    have unchanged : more = [] := by
      refine noMore fun same => ?_
      obtain rfl := Option.some.inj same
      rw [foundP] at foundO
      rw [Option.some.inj foundO, Entry.isAlias, primary] at parentIsAlias
      exact absurd parentIsAlias (by simp)
    refine ⟨_, foundO', primary, ?_⟩
    obtain ⟨c, ids, -, others', dropped⟩ := List.forall₂_cons_left_iff.mp stand
    have rest : oe.children.drop (index + 1) = ids := by
      rw [← List.drop_drop, dropped, List.drop_one, List.tail_cons]
    rw [Entry.extend_children, unchanged, List.append_nil, rest]
    refine others'.imp fun dc c' stands => stands_grown h e.grown (fun t isTop => Or.inr ?_) stands
    rw [← Option.some.inj isTop]
    exact ⟨pe, foundP, parentIsAlias⟩
  names := by
    intro isOriginal
    obtain ⟨distinct, free⟩ := n.names isOriginal
    rw [Plan.namesOfAll] at distinct free
    obtain ⟨-, distinct, apart⟩ := List.nodup_append.mp distinct
    refine ⟨distinct, fun name member => ?_⟩
    rw [e.free fun _ taken => apart name taken name member rfl]
    exact free name (List.mem_append_right _ member)

theorem entered_commitChildren {plans : List Plan} (all : ∀ plan ∈ plans, EntersWell plan)
    {p : Nat} {original : Option Nat} :
    ∀ {r : Registry} {ds : List Definition} {index : Nat}, Linked r →
      Nests r ds plans p original index →
      ∃ news, Entered (Plan.namesOfAll plans) news (some p) original r
          (r.commitChildren p original index plans) ∧
        (original = none →
          List.Forall₂ (Stands (r.commitChildren p original index plans)) ds news) := by
  induction plans with
  | nil =>
    intro r ds index h n
    rw [commitChildren]
    refine ⟨[], .refl h _ _, fun _ => ?_⟩
    rw [List.forall₂_nil_right_iff.mp n.follows]
    exact .nil
  | cons plan rest ih =>
    intro r ds index h n
    obtain ⟨d, ds', follows, -, rfl⟩ := List.forall₂_cons_right_iff.mp n.follows
    obtain ⟨entered, stands⟩ := all plan List.mem_cons_self h (n.welcomes h)
    obtain ⟨news, enteredRest, standRest⟩ := ih
      (fun plan member => all plan (List.mem_cons_of_mem _ member)) entered.linked
      (n.next h entered)
    rw [commitChildren, Plan.namesOfAll]
    have first := (Entered.refl h (some p) original).trans h entered
      (Or.inl ⟨rfl, (List.nil_append _).symm⟩) (n.notOlder h)
    rw [List.nil_append] at first
    refine ⟨r.childrenGot (r.childAt? original index) ++ news,
      first.trans h enteredRest (Or.inl ⟨rfl, rfl⟩) (.refl r original), ?_⟩
    intro isOriginal
    have noOriginal : r.childAt? original index = none := by
      rw [isOriginal]
      rfl
    have got : r.childrenGot (r.childAt? original index) = [r.nextId] := by
      rw [noOriginal]
      rfl
    rw [got, List.singleton_append]
    refine .cons ?_ (standRest isOriginal)
    obtain ⟨pe, foundP, -⟩ := n.parent_live
    -- the trees that are entered later hang on the parent, which is older than this one
    refine stands_grown entered.linked enteredRest.grown (fun t isTop => Or.inl ?_)
      (stands noOriginal)
    rw [← Option.some.inj isTop]
    exact h.lt_nextId foundP

/-- Aliases of the entry `o` may be entered under the parent: the parent is there, and the tree of
the definition stands below the entry, beside what is entered. -/
structure AwaitsAliases (r : Registry) (d : Definition) (parent : Option Nat) (o : Nat) :
    Prop where
  parent_live {p : Nat} : parent = some p → ∃ e, r.get? p = some e
  stands : Stands r d o
  beside : Beside r parent o

theorem AwaitsAliases.live {o : Nat} (w : AwaitsAliases r d parent o) :
    ∃ e, r.get? o = some e := by
  obtain ⟨e, found, -⟩ := stands_iff.mp w.stands
  exact ⟨e, found⟩

theorem AwaitsAliases.welcomes {o : Nat} (w : AwaitsAliases r d parent o)
    (follows : Plan.Follows d plan) : Welcomes r d plan parent (some o) where
  follows := follows
  parent_live := w.parent_live
  stands := by
    rintro _ ⟨⟩
    exact w.stands
  beside := by
    rintro _ ⟨⟩
    exact w.beside
  names := fun none => absurd none (by simp)

/-- What an alias brings along is entered outside of the tree of the original. -/
theorem AwaitsAliases.next (h : Linked r) {o : Nat} (w : AwaitsAliases r d parent o)
    (g : Grown parent (some o) r r') : AwaitsAliases r' d parent o where
  parent_live := fun isParent => g.get?_live (w.parent_live isParent)
  stands := stands_grown h g (w.beside.outside h w.live fun _ => w.parent_live) w.stands
  beside := g.beside (fun _ => w.parent_live) w.live w.beside

theorem entered_commitAliases {plans : List Plan} (all : ∀ plan ∈ plans, EntersWell plan)
    {parent : Option Nat} {o : Nat} :
    ∀ {r : Registry}, Linked r → (∀ plan ∈ plans, Plan.Follows d plan) →
      AwaitsAliases r d parent o →
      Entered [] [] parent (some o) r (r.commitAliases parent o plans) := by
  induction plans with
  | nil =>
    intro r h _ _
    rw [commitAliases]
    exact .refl h _ _
  | cons plan rest ih =>
    intro r h follows w
    obtain ⟨entered, -⟩ := all plan List.mem_cons_self h
      (w.welcomes (follows plan List.mem_cons_self))
    have enteredRest := ih (fun plan member => all plan (List.mem_cons_of_mem _ member))
      entered.linked (fun plan member => follows plan (List.mem_cons_of_mem _ member))
      (w.next h entered.grown)
    rw [commitAliases]
    exact (entered.trans h enteredRest (Or.inl ⟨rfl, rfl⟩) (.refl r (some o))).of_alias

/-- Once a path is entered, what is nested under it may be. -/
theorem Welcomes.nests (h : Linked r) {m : Matcher} {children aliases : List Plan}
    (w : Welcomes r d (.node d m children aliases) parent original) :
    Nests (r.register d m parent original) d.children children r.nextId original 0 := by
  have admitted := w.admits h
  obtain ⟨-, follows, -⟩ := Plan.follows_node.mp w.follows
  refine ⟨follows, ⟨_, get?_register_self (admitted.parent_ne h) (admitted.original_ne h), rfl⟩,
    ?_, ?_⟩
  · intro o isOriginal
    obtain ⟨oe, foundO, -⟩ := stands_iff.mp (w.stands isOriginal)
    have outside := (w.beside isOriginal).outside h ⟨oe, foundO⟩ fun _ => w.parent_live
    exact stands_iff.mp
      (stands_grown h (grown_register h admitted) outside (w.stands isOriginal))
  · intro isOriginal
    obtain ⟨distinct, free⟩ := w.names isOriginal
    rw [Plan.names] at distinct free
    obtain ⟨-, distinct, apart⟩ := List.nodup_append.mp distinct
    refine ⟨distinct, fun name member => ?_⟩
    rw [(entered_register h m admitted).free fun _ taken => apart name taken name member rfl]
    exact free name (List.mem_append_right _ member)

/-- The tree of a definition whose path is no alias stands once its children are entered. -/
theorem stands_newEntry {m : Matcher} {names : List String} {news : List Nat}
    (found : r.get? r'.nextId = some (r'.newEntry d m parent none)) {r'' : Registry}
    (e : Entered names news (some r'.nextId) none r r'')
    (stand : List.Forall₂ (Stands r'') d.children news) :
    Stands r'' d r'.nextId ∧ Beside r'' parent r'.nextId := by
  obtain ⟨aliases, found'⟩ := e.top rfl found rfl
  constructor
  · rw [stands_iff]
    exact ⟨_, found', rfl, stand⟩
  · intro p pe oe isParent _ foundO _
    rw [found'] at foundO
    rw [← Option.some.inj foundO, Entry.extend_parent]
    exact isParent

/-- What is entered with one path leaves the registry ready for the aliases of the path, or of its
original. -/
theorem entered_path {m : Matcher} {children aliases : List Plan}
    (nested : ∀ c ∈ children, EntersWell c) (h : Linked r)
    (w : Welcomes r d (.node d m children aliases) parent original) :
    Entered (d.name.toList ++ Plan.namesOfAll children) (r.childrenGot original) parent original r
        ((r.register d m parent original).commitChildren r.nextId original 0 children) ∧
      AwaitsAliases ((r.register d m parent original).commitChildren r.nextId original 0 children)
        d parent (original.getD r.nextId) := by
  have admitted := w.admits h
  have own := entered_register h m admitted
  have found := get?_register_self (d := d) (m := m) (admitted.parent_ne h)
    (admitted.original_ne h)
  obtain ⟨news, below, stand⟩ := entered_commitChildren nested own.linked (w.nests h)
  have whole := own.trans h below (Or.inr ⟨_, rfl, Nat.le_refl _, rfl⟩) (.refl r original)
  have parent_live : ∀ p, parent = some p → ∃ e, ((r.register d m parent original).commitChildren
      r.nextId original 0 children).get? p = some e :=
    fun p isParent => whole.grown.get?_live (w.parent_live isParent)
  cases original with
  | none =>
    obtain ⟨stands, beside⟩ := stands_newEntry found below (stand rfl)
    exact ⟨whole, fun isParent => parent_live _ isParent, stands, beside⟩
  | some o =>
    obtain ⟨oe, foundO, -⟩ := stands_iff.mp (w.stands rfl)
    have outside := (w.beside rfl).outside h ⟨oe, foundO⟩ fun _ => w.parent_live
    -- what is nested goes under the new entry, which is an alias
    have outsideNew : Outside (r.register d m parent (some o)) (some r.nextId) o := by
      rintro _ ⟨⟩
      exact Or.inr ⟨_, found, rfl⟩
    have stands := stands_grown own.linked below.grown outsideNew
      (stands_grown h own.grown outside (w.stands rfl))
    have beside := whole.grown.beside (fun _ => w.parent_live) ⟨oe, foundO⟩ (w.beside rfl)
    exact ⟨whole, fun isParent => parent_live _ isParent, stands, beside⟩

/-- Entering a plan that is welcome keeps the registry linked, and where the plan is not that of an
alias, the tree of its definition stands from the new number on. -/
theorem entersWell (plan : Plan) : EntersWell plan := by
  induction plan using Plan.induction with
  | step d m children aliases nested alternatives =>
    intro r d' parent original h w
    obtain ⟨same, -, allFollow⟩ := Plan.follows_node.mp w.follows
    subst same
    obtain ⟨first, awaits⟩ := entered_path nested h w
    have others := entered_commitAliases alternatives first.linked allFollow awaits
    rw [commit, Plan.names]
    cases original with
    | none =>
      refine ⟨?_, fun _ => (awaits.next first.linked others.grown).stands⟩
      have whole := first.trans h others (Or.inl ⟨rfl, (List.append_nil _).symm⟩)
        ⟨fun none => absurd none (by simp), fun _ same => Nat.le_of_eq (Option.some.inj same)⟩
      rw [List.append_nil] at whole
      exact whole
    | some o =>
      refine ⟨?_, fun none => absurd none (by simp)⟩
      exact (first.trans h others (Or.inl ⟨rfl, rfl⟩) (.refl r (some o))).of_alias

end Registry
end Waymark
