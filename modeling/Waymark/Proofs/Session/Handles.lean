/-
Handles and copies.

A handle is the number of a route, and a router does not give out a number twice.  But a copy
goes on counting from where the router was when it was copied, so the router and the copy give out
the same numbers to different routes.  A `Ledger` keeps account of this: which route each handle
was given out for, and which of these routes a router knows, because they were added to it or to
the router that it is a copy of, before it was copied.

* `kept_run` — what a router holds of the routes of handles it knows, and under the numbers of
  those that it knows it holds no other routes;
* `dispose_spares_iff` — the exact condition under which a handle leaves other routes alone;
* `exists_dispose_other` — a handle that removes a different, later route;
* `known_of_unforked` — without copies every route of a handle is known.
-/
import Waymark.Proofs.Router.Frame
import Waymark.Session

namespace Waymark

namespace Router

variable {r next : Router} {d : Definition} {id : Nat}

/-- An addition leads to a later router, which holds the new route. -/
theorem later_addAt (h : r.registry.Linked) {parent : Option RouteRef}
    (added : r.addAt parent d = .ok (next, id)) :
    r.registry.Later next.registry ∧ next.registry.Linked ∧ id = r.registry.nextId ∧
      ∃ e, next.registry.get? id = some e ∧ e.record.id = ⟨r.registry.lineage, id⟩ := by
  have i := inserts_of_addAt h added
  have later := later_inserts h i
  refine ⟨later, i.entered.linked, i.first, ?_⟩
  obtain ⟨e, found, -⟩ := i.exists_first
  exact ⟨e, found, later.fresh found (Nat.le_of_eq i.first.symm)⟩

theorem later_addAll (h : r.registry.Linked) {ds : List Definition}
    (added : r.addAll ds = .ok next) : r.registry.Later next.registry ∧ next.registry.Linked := by
  induction ds generalizing r with
  | nil =>
    obtain rfl := Except.ok.inj added
    exact ⟨.refl h, h⟩
  | cons d rest ih =>
    rw [addAll] at added
    split at added
    · exact absurd added (by simp)
    · rename_i next' id first
      have addedFirst : r.addAt none d = .ok (next', id) := first
      obtain ⟨later, linked, -⟩ := later_addAt h addedFirst
      obtain ⟨later', linked'⟩ := ih linked added
      exact ⟨later.trans h later', linked'⟩

theorem linked_copy (h : r.registry.Linked) (lineage : Nat) : (r.copy lineage).registry.Linked where
  number := h.number
  lt_nextId := h.lt_nextId
  parent := h.parent
  original := h.original
  child := h.child
  alternative := h.alternative
  younger := h.younger
  dependents_nodup := h.dependents_nodup
  recorded := h.recorded
  ordered_nodup := h.ordered_nodup
  mem_ordered := h.mem_ordered
  named := h.named

/-- The records that are there are those of the entries, by their identity. -/
theorem mem_ids_records (h : r.registry.Linked) {route : RecordId} :
    route ∈ r.records.map (·.id) ↔
      ∃ e, r.registry.get? route.number = some e ∧ e.record.id = route := by
  simp only [records, List.map_map, List.mem_map, Function.comp_apply]
  constructor
  · rintro ⟨e, member, rfl⟩
    exact ⟨e, (Registry.mem_inOrder h).mp member, rfl⟩
  · rintro ⟨e, found, rfl⟩
    exact ⟨e, (Registry.mem_inOrder h).mpr found, rfl⟩

end Router

namespace Session

open Router (later_addAt later_addAll linked_copy mem_ids_records)

variable {s : Session}

/-! ### Runs of a session -/

/-- Adds a route, under another one if there is a parent, and keeps its handle. -/
def addAt (s : Session) (parent : Option RouteRef) (d : Definition) :
    Except DefinitionError (Session × Nat) :=
  match parent with
  | none => s.add d
  | some parent => s.addUnder parent d

theorem addAt_eq (s : Session) (parent : Option RouteRef) (d : Definition) :
    s.addAt parent d =
      (s.router.addAt parent d).map fun result => (s.added result, result.2) := by
  cases parent <;> rfl

/-- What a caller may do to the router of a session and to its copies. -/
inductive Step
  | add (parent : Option RouteRef) (d : Definition)
  | addAll (ds : List Definition)
  | remove (target : RouteRef)
  | dispose (handle : Nat)
  | clear
  | fork
  | swap (fork : Nat)

/-- The session after a step.  A step that fails leaves it as it was. -/
def apply (s : Session) : Step → Session
  | .add parent d =>
    match s.addAt parent d with
    | .ok (next, _) => next
    | .error _ => s
  | .addAll ds =>
    match s.addAll ds with
    | .ok next => next
    | .error _ => s
  | .remove target => s.remove target
  | .dispose handle => (s.dispose? handle).getD s
  | .clear => s.clear
  | .fork => s.fork
  | .swap fork => (s.swap? fork).getD s

/-- The session after some steps. -/
def run (s : Session) (steps : List Step) : Session := steps.foldl apply s

/-- An account of the routes that handles were given out for. -/
structure Ledger where
  /-- The route of each handle. -/
  routes : List RecordId
  /-- The routes of handles that the router of a lineage knows: they were added to it, or to the
  router that it is a copy of, before it was copied. -/
  known : Nat → List RecordId

namespace Ledger

/-- The account of a session without handles. -/
def empty : Ledger := ⟨[], fun _ => []⟩

/-- A handle is given out for a route, which the router of the route's lineage knows. -/
def issue (l : Ledger) (route : RecordId) : Ledger where
  routes := l.routes ++ [route]
  known := Function.update l.known route.lineage (l.known route.lineage ++ [route])

/-- A copy knows what the router knows. -/
def copy (l : Ledger) (lineage copied : Nat) : Ledger :=
  { l with known := Function.update l.known copied (l.known lineage) }

/-- The account after a step of a session. -/
def note (l : Ledger) (s : Session) : Step → Ledger
  | .add parent d =>
    match s.addAt parent d with
    | .ok (_, id) => l.issue ⟨s.router.registry.lineage, id⟩
    | .error _ => l
  | .fork => l.copy s.router.registry.lineage s.nextLineage
  | _ => l

end Ledger

/-- The account after some steps of a session. -/
def account (s : Session) (l : Ledger) : List Step → Ledger
  | [] => l
  | step :: rest => (s.apply step).account (l.note s step) rest

/-! ### What every run keeps -/

/-- The router and its copies. -/
def routers (s : Session) : List Router := s.router :: s.forks

/-- The router of the route's lineage, if it is there, has given out the route's number. -/
structure Dated (s : Session) (route : RecordId) : Prop where
  lineage : route.lineage < s.nextLineage
  number : ∀ r ∈ s.routers, r.registry.lineage = route.lineage → route.number < r.registry.nextId

/-- What a router holds of the routes of handles it knows, and under the numbers of those that it
knows it holds nothing else. -/
structure Aware (routes known : List RecordId) (r : Registry) : Prop where
  linked : r.Linked
  issued : ∀ route ∈ known, route ∈ routes
  passed : ∀ route ∈ known, route.number < r.nextId
  same : ∀ route ∈ known, ∀ e, r.get? route.number = some e → e.record.id = route
  complete : ∀ id e, r.get? id = some e → e.record.id ∈ routes → e.record.id ∈ known

/-- The account agrees with the session, whose routers have lineages of their own. -/
structure Kept (s : Session) (l : Ledger) : Prop where
  handles : s.handles = l.routes.map (·.number)
  lineages : (s.routers.map (·.registry.lineage)).Nodup
  bound : ∀ r ∈ s.routers, r.registry.lineage < s.nextLineage
  aware : ∀ r ∈ s.routers, Aware l.routes (l.known r.registry.lineage) r.registry
  dated : ∀ route ∈ l.routes, Dated s route
  live : ∀ r ∈ s.routers, ∀ id e, r.registry.get? id = some e → Dated s e.record.id

/-- What was dated is dated still, if the router goes on. -/
theorem Dated.later {route : RecordId} (dated : Dated s route) {next : Router}
    (later : s.router.registry.Later next.registry) (handles : List Nat) :
    Dated { s with router := next, handles } route where
  lineage := dated.lineage
  number := by
    intro r member sameLineage
    rcases List.mem_cons.mp member with rfl | isFork
    · have before := dated.number _ List.mem_cons_self (later.lineage.symm.trans sameLineage)
      exact Nat.lt_of_lt_of_le before later.nextId_le
    · exact dated.number r (List.mem_cons_of_mem _ isFork) sameLineage

/-- A router that has gone on knows what it knew. -/
theorem Aware.later {routes known : List RecordId} {r r' : Registry} (aware : Aware routes known r)
    (later : r.Later r') (linked : r'.Linked)
    (dated : ∀ route ∈ routes, r.lineage = route.lineage → route.number < r.nextId) :
    Aware routes known r' where
  linked := linked
  issued := aware.issued
  passed := fun route isKnown => Nat.lt_of_lt_of_le (aware.passed route isKnown) later.nextId_le
  same := by
    intro route isKnown e' found'
    obtain ⟨e, _, _, found, rfl⟩ := later.kept found' (aware.passed route isKnown)
    exact aware.same route isKnown e found
  complete := by
    intro id e' found' isRoute
    rcases Nat.lt_or_ge id r.nextId with low | high
    · obtain ⟨e, _, _, found, rfl⟩ := later.kept found' low
      exact aware.complete id e found isRoute
    · -- a new entry is not the route of a handle
      rw [later.fresh found' high] at isRoute
      exact absurd (dated _ isRoute rfl) (Nat.not_lt.mpr high)

/-- A route that the router holds is added to those that it knows. -/
theorem Aware.concat {routes known : List RecordId} {r : Registry} (aware : Aware routes known r)
    {route : RecordId} {e : Entry} (found : r.get? route.number = some e)
    (isRoute : e.record.id = route) : Aware (routes ++ [route]) (known ++ [route]) r where
  linked := aware.linked
  issued := by
    intro other isKnown
    rcases List.mem_append.mp isKnown with old | new
    · exact List.mem_append_left _ (aware.issued other old)
    · exact List.mem_append_right _ new
  passed := by
    intro other isKnown
    rcases List.mem_append.mp isKnown with old | new
    · exact aware.passed other old
    · rw [List.mem_singleton.mp new]
      exact aware.linked.lt_nextId found
  same := by
    intro other isKnown e' found'
    rcases List.mem_append.mp isKnown with old | new
    · exact aware.same other old e' found'
    · rw [List.mem_singleton.mp new] at found' ⊢
      rw [← Option.some.inj (found.symm.trans found')]
      exact isRoute
  complete := by
    intro id e' found' isIssued
    rcases List.mem_append.mp isIssued with old | new
    · exact List.mem_append_left _ (aware.complete id e' found' old)
    · exact List.mem_append_right _ new

/-- A route that the router does not hold is added to another router. -/
theorem Aware.elsewhere {routes known : List RecordId} {r : Registry} (aware : Aware routes known r)
    {route : RecordId} (foreign : ∀ id e, r.get? id = some e → e.record.id ≠ route) :
    Aware (routes ++ [route]) known r where
  linked := aware.linked
  issued := fun other isKnown => List.mem_append_left _ (aware.issued other isKnown)
  passed := aware.passed
  same := aware.same
  complete := by
    intro id e found isIssued
    rcases List.mem_append.mp isIssued with old | new
    · exact aware.complete id e found old
    · exact absurd (List.mem_singleton.mp new) (foreign id e found)

namespace Kept

variable {l : Ledger} (k : Kept s l)

include k

theorem linked : s.router.registry.Linked := (k.aware _ List.mem_cons_self).linked

/-- The router's lineage is that of no copy. -/
theorem lineage_ne {r : Router} (isFork : r ∈ s.forks) :
    r.registry.lineage ≠ s.router.registry.lineage := by
  have apart := (List.nodup_cons.mp k.lineages).1
  exact fun same => apart (List.mem_map.mpr ⟨r, isFork, same⟩)

/-- What the router gives out is dated. -/
theorem dated_own {next : Router} {n : Nat} (low : n < next.registry.nextId)
    (handles : List Nat) :
    Dated { s with router := next, handles } ⟨s.router.registry.lineage, n⟩ where
  lineage := k.bound _ List.mem_cons_self
  number := by
    intro r member sameLineage
    rcases List.mem_cons.mp member with rfl | isFork
    · exact low
    · exact absurd sameLineage (k.lineage_ne isFork)

/-- The router goes on, and no handle is given out. -/
theorem alter {next : Router} (later : s.router.registry.Later next.registry)
    (linked : next.registry.Linked) : Kept { s with router := next } l where
  handles := k.handles
  lineages := by
    have apart := k.lineages
    rw [routers, List.map_cons] at apart ⊢
    rw [later.lineage]
    exact apart
  bound := by
    intro r member
    rcases List.mem_cons.mp member with rfl | isFork
    · rw [later.lineage]
      exact k.bound _ List.mem_cons_self
    · exact k.bound r (List.mem_cons_of_mem _ isFork)
  aware := by
    intro r member
    rcases List.mem_cons.mp member with rfl | isFork
    · rw [later.lineage]
      exact (k.aware _ List.mem_cons_self).later later linked fun route isRoute =>
        (k.dated route isRoute).number _ List.mem_cons_self
    · exact k.aware r (List.mem_cons_of_mem _ isFork)
  dated := fun route isRoute => (k.dated route isRoute).later later _
  live := by
    intro r member id e found
    rcases List.mem_cons.mp member with rfl | isFork
    · rcases Nat.lt_or_ge id s.router.registry.nextId with low | high
      · obtain ⟨e₀, _, _, found₀, rfl⟩ := later.kept found low
        exact (k.live _ List.mem_cons_self id e₀ found₀).later later _
      · rw [later.fresh found high]
        exact k.dated_own (linked.lt_nextId found) _
    · exact (k.live r (List.mem_cons_of_mem _ isFork) id e found).later later _

/-- A route is added, and a handle is given out for it. -/
theorem issue {next : Router} {d : Definition} {parent : Option RouteRef} {id : Nat}
    (added : s.router.addAt parent d = .ok (next, id)) :
    Kept (s.added (next, id)) (l.issue ⟨s.router.registry.lineage, id⟩) := by
  obtain ⟨later, linked, isId, e, found, isRoute⟩ := later_addAt k.linked added
  have altered := k.alter later linked
  refine ⟨?_, altered.lineages, altered.bound, ?_, ?_, ?_⟩
  · show s.handles ++ [id] = (l.routes ++ [_]).map _
    rw [k.handles, List.map_append]
    rfl
  · intro r member
    have aware := altered.aware r member
    rcases List.mem_cons.mp member with rfl | isFork
    · rw [later.lineage] at aware ⊢
      show Aware _ (Function.update l.known _ _ s.router.registry.lineage) _
      rw [Function.update_self]
      exact aware.concat found isRoute
    · show Aware _ (Function.update l.known _ _ r.registry.lineage) _
      rw [Function.update_of_ne (k.lineage_ne isFork)]
      -- no copy holds anything under a number that the router had not given out
      refine aware.elsewhere fun n e' found' same => ?_
      have low := (k.live r (List.mem_cons_of_mem _ isFork) n e' found').number _
        List.mem_cons_self (congrArg RecordId.lineage same).symm
      rw [same, isId] at low
      exact absurd low (Nat.lt_irrefl _)
  · intro route isIssued
    rcases List.mem_append.mp isIssued with old | new
    · exact (k.dated route old).later later _
    · rw [List.mem_singleton.mp new]
      exact k.dated_own (linked.lt_nextId found) _
  · intro r member n e' found'
    have dated := altered.live r member n e' found'
    exact ⟨dated.lineage, dated.number⟩

/-- A copy knows what the router knows, and goes on with a lineage of its own. -/
theorem fork : Kept s.fork (l.copy s.router.registry.lineage s.nextLineage) := by
  have members : ∀ r, r ∈ s.fork.routers ↔ r ∈ s.routers ∨ r = s.router.copy s.nextLineage := by
    intro r
    show r ∈ s.router :: (s.forks ++ [s.router.copy s.nextLineage]) ↔ _
    rw [← List.cons_append, List.mem_append, List.mem_singleton]
    rfl
  have dated : ∀ {route}, Dated s route → Dated s.fork route := by
    intro route before
    refine ⟨Nat.lt_succ_of_lt before.lineage, fun r member sameLineage => ?_⟩
    rcases (members r).mp member with old | rfl
    · exact before.number r old sameLineage
    · exact absurd before.lineage (Nat.not_lt.mpr (Nat.le_of_eq sameLineage))
  refine ⟨k.handles, ?_, ?_, ?_, fun route isRoute => dated (k.dated route isRoute), ?_⟩
  · show ((s.router :: (s.forks ++ [s.router.copy s.nextLineage])).map _).Nodup
    rw [← List.cons_append, List.map_append, List.nodup_append]
    refine ⟨k.lineages, List.nodup_singleton _, ?_⟩
    intro lineage old other new same
    obtain ⟨r, member, rfl⟩ := List.mem_map.mp old
    have bound := k.bound r member
    rw [List.map_singleton, List.mem_singleton] at new
    rw [new] at same
    exact absurd bound (Nat.not_lt.mpr (Nat.le_of_eq same.symm))
  · intro r member
    rcases (members r).mp member with old | rfl
    · exact Nat.lt_succ_of_lt (k.bound r old)
    · exact Nat.lt_succ_self _
  · intro r member
    rcases (members r).mp member with old | rfl
    · show Aware _ (Function.update l.known _ _ r.registry.lineage) _
      rw [Function.update_of_ne (Nat.ne_of_lt (k.bound r old))]
      exact k.aware r old
    · have own := k.aware _ List.mem_cons_self
      show Aware _ (Function.update l.known s.nextLineage _ s.nextLineage) _
      rw [Function.update_self]
      exact ⟨linked_copy own.linked _, own.issued, own.passed, own.same, own.complete⟩
  · intro r member n e found
    rcases (members r).mp member with old | rfl
    · exact dated (k.live r old n e found)
    · exact dated (k.live _ List.mem_cons_self n e found)

/-- The router and a copy change places. -/
theorem swap {index : Nat} {r : Router} (isFork : s.forks[index]? = some r) :
    Kept { s with router := r, forks := s.forks.set index s.router } l := by
  obtain ⟨inRange, isRouter⟩ := List.getElem?_eq_some_iff.mp isFork
  obtain ⟨front, back, split, -, exchanged⟩ : ∃ front back, s.forks = front ++ r :: back ∧
      front.length = index ∧ s.forks.set index s.router = front ++ s.router :: back := by
    rw [← isRouter]
    exact List.exists_of_set inRange
  have perm : (r :: s.forks.set index s.router).Perm s.routers := by
    rw [exchanged, routers, split]
    refine (List.Perm.cons _ List.perm_middle).trans ?_
    exact (List.Perm.swap _ _ _).trans (List.Perm.cons _ List.perm_middle.symm)
  have dated : ∀ {route}, Dated s route →
      Dated { s with router := r, forks := s.forks.set index s.router } route := fun before =>
    ⟨before.lineage, fun r' member => before.number r' (perm.mem_iff.mp member)⟩
  exact ⟨k.handles, (perm.map _).nodup_iff.mpr k.lineages,
    fun r' member => k.bound r' (perm.mem_iff.mp member),
    fun r' member => k.aware r' (perm.mem_iff.mp member),
    fun route isRoute => dated (k.dated route isRoute),
    fun r' member n e found => dated (k.live r' (perm.mem_iff.mp member) n e found)⟩

end Kept

/-! ### Runs -/

theorem kept_new (options : RouterOptions) : Kept (new options) .empty where
  handles := rfl
  lineages := List.nodup_singleton _
  bound := by
    intro r member
    rw [List.mem_singleton.mp member]
    exact Nat.lt_succ_self _
  aware := by
    intro r member
    rw [List.mem_singleton.mp member]
    refine ⟨Registry.linked_empty 0, ?_, ?_, ?_, ?_⟩
    · exact fun _ isKnown => absurd isKnown List.not_mem_nil
    · exact fun _ isKnown => absurd isKnown List.not_mem_nil
    · exact fun _ isKnown => absurd isKnown List.not_mem_nil
    · exact fun _ _ _ isRoute => absurd isRoute List.not_mem_nil
  dated := fun _ isRoute => absurd isRoute List.not_mem_nil
  live := by
    intro r member id e found
    rw [List.mem_singleton.mp member] at found
    exact absurd found (by simp [new, ofRouter, Router.new, Registry.empty, Registry.get?])

theorem kept_apply {l : Ledger} (k : Kept s l) (step : Step) :
    Kept (s.apply step) (l.note s step) := by
  have removal : ∀ target, Kept (s.remove target) l := by
    intro target
    exact k.alter (Router.later_apply k.linked (.remove target))
      (Router.linked_apply k.linked (.remove target)).1
  cases step with
  | add parent d =>
    cases added : s.router.addAt parent d with
    | error error =>
      rw [apply, Ledger.note, addAt_eq, added]
      exact k
    | ok result =>
      rw [apply, Ledger.note, addAt_eq, added]
      exact k.issue added
  | addAll ds =>
    rw [apply, addAll]
    cases added : s.router.addAll ds with
    | error error => exact k
    | ok next =>
      obtain ⟨later, linked⟩ := later_addAll k.linked added
      exact k.alter later linked
  | remove target => exact removal target
  | dispose handle =>
    rw [apply, dispose?]
    cases s.handles[handle]? with
    | none => exact k
    | some id => exact removal (.id id)
  | clear => exact k.alter (Registry.later_clear _) (Registry.linked_clear _)
  | fork => exact k.fork
  | swap fork =>
    rw [apply, swap?]
    cases isFork : s.forks[fork]? with
    | none => exact k
    | some r => exact k.swap isFork

theorem kept_run {l : Ledger} (k : Kept s l) (steps : List Step) :
    Kept (s.run steps) (s.account l steps) := by
  induction steps generalizing s l with
  | nil => exact k
  | cons step rest ih => exact ih (kept_apply k step)

/-! ### Disposals -/

/-- Removing a number changes nothing only where nothing has the number. -/
theorem remove_id_eq_self {r : Router} (h : r.registry.Linked) (n : Nat) :
    r.remove (.id n) = r ↔ r.registry.get? n = none := by
  constructor
  · intro same
    refine Option.eq_none_iff_forall_ne_some.mpr fun e found => ?_
    have present : r.lookup? (.id n) = some e := found
    have removed := Router.remove_of_lookup? present
    rw [same, h.number found] at removed
    have unchanged : r.registry = r.registry.remove n := congrArg Router.registry removed
    have live : (r.registry.remove n).get? n = some e := unchanged ▸ found
    exact ((Registry.get?_remove_iff h n e).mp live).2 .refl
  · intro gone
    have unknown : r.lookup? (.id n) = none := gone
    rw [Router.remove, unknown]

/-- After any run over a router and its copies, a handle is disposed of by the number of the route
that it was given out for, under which the router holds this very route or nothing, if it knows the
route, and which it does not hold otherwise.  So where the router does not hold the route, the
disposal leaves it alone exactly if it knows the route or has nothing under the number. -/
theorem dispose_spares_iff (options : RouterOptions) (steps : List Step) :
    let s := (new options).run steps
    let ledger := (new options).account .empty steps
    let known := ledger.known s.router.registry.lineage
    let held := s.router.records.map (·.id)
    s.handles.length = ledger.routes.length ∧
      ∀ handle route, ledger.routes[handle]? = some route →
        s.dispose? handle = some (s.remove (.id route.number)) ∧
        (route ∈ known → s.router.registry.get? route.number = none ∨ route ∈ held) ∧
        (route ∉ known → route ∉ held) ∧
        ((route ∉ held → (s.remove (.id route.number)).router = s.router) ↔
          route ∈ known ∨ s.router.registry.get? route.number = none) := by
  intro s ledger known held
  have kept : Kept s ledger := kept_run (kept_new options) steps
  have aware : Aware ledger.routes known s.router.registry := kept.aware _ List.mem_cons_self
  have isHeld : ∀ route, route ∈ held ↔
      ∃ e, s.router.registry.get? route.number = some e ∧ e.record.id = route :=
    fun route => mem_ids_records aware.linked
  refine ⟨by rw [kept.handles, List.length_map], fun handle route isRoute => ?_⟩
  have isIssued : route ∈ ledger.routes := List.mem_of_getElem? isRoute
  have isKnown : route ∈ known → s.router.registry.get? route.number = none ∨ route ∈ held := by
    intro isKnown
    cases found : s.router.registry.get? route.number with
    | none => exact Or.inl rfl
    | some e => exact Or.inr ((isHeld route).mpr ⟨e, found, aware.same route isKnown e found⟩)
  have isUnknown : route ∉ known → route ∉ held := by
    rintro isUnknown isHeld'
    obtain ⟨e, found, rfl⟩ := (isHeld route).mp isHeld'
    exact isUnknown (aware.complete _ e found isIssued)
  refine ⟨?_, isKnown, isUnknown, ?_⟩
  · rw [dispose?, kept.handles, List.getElem?_map, isRoute]
    rfl
  · show (_ → s.router.remove (.id route.number) = s.router) ↔ _
    rw [remove_id_eq_self aware.linked]
    constructor
    · intro spares
      by_cases isKnown' : route ∈ known
      · exact Or.inl isKnown'
      · exact Or.inr (spares (isUnknown isKnown'))
    · rintro (isKnown' | free) notHeld
      · exact (isKnown isKnown').resolve_right notHeld
      · exact free

/-- The route is added and disposed of after the router was copied, so the copy gives out the number
again: there the handle removes the route of the copy. -/
theorem exists_dispose_other :
    let steps : List Step := [.fork, .add none { path := "/:a" }, .dispose 0, .swap 0,
      .add none { path := "/:b" }]
    let s := (new {}).run steps
    let ledger := (new {}).account .empty steps
    ∃ route, ledger.routes[0]? = some route ∧ route ∉ s.router.records.map (·.id) ∧
      s.router.records.map (·.path) = ["/:b"] ∧
      (s.dispose? 0).map (fun after => after.router.records.map (·.path)) = some [] := by
  obtain ⟨steps, isSteps⟩ : ∃ steps : List Step, steps = [.fork, .add none { path := "/:a" },
      .dispose 0, .swap 0, .add none { path := "/:b" }] := ⟨_, rfl⟩
  rw [← isSteps]
  have isRoute : ((new {}).account .empty steps).routes[0]? = some ⟨0, 0⟩ := by
    rw [isSteps]
    cbv
  have held : let records := ((new {}).run steps).router.records
      (records.map (·.id), records.map (·.path)) = ([⟨1, 0⟩], ["/:b"]) := by
    rw [isSteps]
    cbv
  have after : (((new {}).run steps).dispose? 0).map
      (fun after => after.router.records.map (·.path)) = some [] := by
    rw [isSteps]
    cbv
  obtain ⟨ids, paths⟩ := Prod.mk.inj held
  refine ⟨⟨0, 0⟩, isRoute, ?_, paths, after⟩
  rw [ids]
  decide

/-- The copy was made after the route was added, so it knows the route: it holds the route after
the router has removed it, and there the handle removes it and then nothing more. -/
theorem dispose_spares_copy : ∃ route : RecordId,
    let steps : List Step := [.add none { path := "/:a" }, .fork, .dispose 0, .swap 0]
    let s := (new {}).run steps
    let after := (new {}).run (steps ++ [.dispose 0])
    route ∈ s.router.records.map (·.id) ∧ s.dispose? 0 = some (s.remove (.id route.number)) ∧
      route ∉ after.router.records.map (·.id) ∧
      (after.remove (.id route.number)).router = after.router := by
  obtain ⟨steps, isSteps⟩ : ∃ steps : List Step,
      steps = [.add none { path := "/:a" }, .fork, .dispose 0, .swap 0] := ⟨_, rfl⟩
  rw [← isSteps]
  have isRoute : ((new {}).account .empty steps).routes[0]? = some ⟨0, 0⟩ := by
    rw [isSteps]
    cbv
  have held : ((new {}).run steps).router.records.map (·.id) = [⟨0, 0⟩] := by
    rw [isSteps]
    cbv
  have ledger : let l := (new {}).account .empty (steps ++ [.dispose 0])
      (l.routes[0]?, l.known 1) = (some ⟨0, 0⟩, [⟨0, 0⟩]) := by
    rw [isSteps]
    cbv
  have after : let r := ((new {}).run (steps ++ [.dispose 0])).router
      (r.registry.lineage, r.records.map (·.id)) = (1, []) := by
    rw [isSteps]
    cbv
  obtain ⟨isRoute', isKnown⟩ := Prod.mk.inj ledger
  obtain ⟨lineage, gone⟩ := Prod.mk.inj after
  obtain ⟨disposed, -⟩ := (dispose_spares_iff {} steps).2 0 _ isRoute
  obtain ⟨-, -, -, spares⟩ := (dispose_spares_iff {} (steps ++ [.dispose 0])).2 0 _ isRoute'
  rw [lineage, gone, isKnown] at spares
  refine ⟨⟨0, 0⟩, ?_, disposed, ?_, spares.mpr (Or.inl List.mem_cons_self) List.not_mem_nil⟩
  · rw [held]
    exact List.mem_cons_self
  · rw [gone]
    exact List.not_mem_nil

/-! ### Without copies -/

/-- What a step does to a session without copies, unless it makes one. -/
theorem unforked_apply {l : Ledger} (k : Kept s l) (alone : s.forks = []) {step : Step}
    (noFork : step ≠ .fork) :
    (s.apply step).forks = [] ∧
      (s.apply step).router.registry.lineage = s.router.registry.lineage := by
  have removal : ∀ target, (s.remove target).forks = [] ∧
      (s.remove target).router.registry.lineage = s.router.registry.lineage := fun target =>
    ⟨alone, (Router.later_apply k.linked (.remove target)).lineage⟩
  cases step with
  | add parent d =>
    rw [apply, addAt_eq]
    cases added : s.router.addAt parent d with
    | error error => exact ⟨alone, rfl⟩
    | ok result => exact ⟨alone, (later_addAt k.linked added).1.lineage⟩
  | addAll ds =>
    rw [apply, addAll]
    cases added : s.router.addAll ds with
    | error error => exact ⟨alone, rfl⟩
    | ok next => exact ⟨alone, (later_addAll k.linked added).1.lineage⟩
  | remove target => exact removal target
  | dispose handle =>
    rw [apply, dispose?]
    cases s.handles[handle]? with
    | none => exact ⟨alone, rfl⟩
    | some id => exact removal (.id id)
  | clear => exact ⟨alone, rfl⟩
  | fork => exact absurd rfl noFork
  | swap fork =>
    rw [apply, swap?, alone]
    exact ⟨alone, rfl⟩

/-- As long as no copy is made, the router knows the route of every handle. -/
theorem known_of_unforked (options : RouterOptions) {steps : List Step}
    (unforked : ∀ step ∈ steps, step ≠ .fork) :
    ((new options).account .empty steps).known ((new options).run steps).router.registry.lineage =
      ((new options).account .empty steps).routes := by
  have goesOn : ∀ {s : Session} {l : Ledger}, Kept s l → s.forks = [] →
      l.known s.router.registry.lineage = l.routes →
      (s.account l steps).known (s.run steps).router.registry.lineage =
        (s.account l steps).routes := by
    induction steps with
    | nil => exact fun _ _ known => known
    | cons step rest ih =>
      intro s l k alone known
      obtain ⟨noFork, others⟩ := List.forall_mem_cons.mp unforked
      obtain ⟨alone', lineage⟩ := unforked_apply k alone noFork
      refine ih others (kept_apply k step) alone' ?_
      rw [lineage]
      cases step with
      | add parent d =>
        rw [Ledger.note]
        split
        · show Function.update l.known _ _ s.router.registry.lineage = l.routes ++ [_]
          rw [Function.update_self, known]
        · exact known
      | fork => exact absurd rfl noFork
      | _ => exact known
  exact goesOn (kept_new options) rfl rfl

end Session
end Waymark
