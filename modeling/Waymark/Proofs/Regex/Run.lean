/-
Running an expression before what follows it.

`Expr.run e k p` tries `k` at the ends of `e` from `p` on, in the order of preference,
until it succeeds.  A place that can be reached in several ways is tried once only, but
trying it again would not change the outcome as long as `k` does not depend on what was
captured for whether it succeeds (`Fair`).  So a run goes through an expression as a
backtracking matcher does:

* `run_seq` — to run a sequence is to run its first part before the second one;
* `run_optional` — an optional part is tried first, then passed over;
* `run_star`, `run_plus` — a loop whose rounds consume something takes one more round
  first, then is left;
* `search?_of_anchored` — an anchored expression is run at the start of a text only.
-/
import Waymark.Proofs.Regex.Ends

namespace Waymark.Regex

open Point (Same In)
open Unicode (CodeSet)

variable {α : Type} {k : Point → Option α} {text : List Char} {p : Point}
  {step : Point → List Point}

/-- Whether the search succeeds at a place does not depend on what was captured before. -/
def Fair (k : Point → Option α) : Prop := ∀ p q, Same p q → (k p).isSome = (k q).isSome

theorem Fair.eq_none (fair : Fair k) {p q : Point} (same : Same p q) (h : k p = none) :
    k q = none := by
  have alike := fair p q same
  rw [h] at alike
  exact Option.isNone_iff_eq_none.mp (by rw [← Option.not_isSome, ← alike]; rfl)

theorem Fair.findSome? (fair : Fair k) {l l' : List Point} (h : SamePlaces l l') :
    (l.findSome? k).isSome = (l'.findSome? k).isSome := by
  induction h with
  | nil => rfl
  | @cons p q _ _ first _ ih =>
    have alike := fair p q first
    rw [List.findSome?_cons, List.findSome?_cons]
    -- the values may differ, but the search stops at the same place
    cases foundP : k p with
    | none => rw [fair.eq_none first foundP]; exact ih
    | some a =>
      rw [foundP] at alike
      cases foundQ : k q with
      | none => rw [foundQ] at alike; exact absurd alike (by simp)
      | some b => rfl

theorem findSome?_congr {β : Type} {l : List β} {f g : β → Option α} (h : ∀ b ∈ l, f b = g b) :
    l.findSome? f = l.findSome? g := by
  induction l with
  | nil => rfl
  | cons b rest ih =>
    rw [List.findSome?_cons, List.findSome?_cons, h b List.mem_cons_self,
      ih fun x member => h x (List.mem_cons_of_mem _ member)]

/-! ### Lists without repetitions -/

/-- A place that is listed already need not be listed again. -/
theorem findSome?_reach (fair : Fair k) {found : List Point} (places : ∀ q ∈ found, q.In text)
    (place : p.In text) :
    (reach found p).findSome? k = (found.findSome? k).or (k p) := by
  rw [reach]
  split
  · rename_i listed
    obtain ⟨q, member, same⟩ := List.any_eq_true.mp listed
    cases search : found.findSome? k with
    | some a => rfl
    | none =>
      have failed := List.findSome?_eq_none_iff.mp search q member
      have offset : q.offset = p.offset := by simpa using same
      rw [fair.eq_none ((places q member).same place offset) failed]
      rfl
  · rw [List.findSome?_append, List.findSome?_singleton]

theorem in_reach {found : List Point} (places : ∀ q ∈ found, q.In text) (place : p.In text) :
    ∀ q ∈ reach found p, q.In text := by
  intro q listed
  rcases mem_reach listed with old | rfl
  · exact places q old
  · exact place

theorem findSome?_foldl_reach (fair : Fair k) {l found : List Point}
    (places : ∀ q ∈ found, q.In text) (others : ∀ q ∈ l, q.In text) :
    (l.foldl reach found).findSome? k = (found.findSome? k).or (l.findSome? k) := by
  induction l generalizing found with
  | nil => simp
  | cons p rest ih =>
    have place := others p List.mem_cons_self
    rw [List.foldl_cons, ih (in_reach places place) fun q member =>
      others q (List.mem_cons_of_mem _ member), findSome?_reach fair places place,
      List.findSome?_cons, Option.or_assoc]
    cases k p <;> rfl

theorem in_foldl_reach {l found : List Point} (places : ∀ q ∈ found, q.In text)
    (others : ∀ q ∈ l, q.In text) : ∀ q ∈ l.foldl reach found, q.In text := by
  intro q listed
  rcases mem_foldl_reach listed with old | new
  · exact places q old
  · exact others q new

theorem findSome?_foldl_step (fair : Fair k) {ends found : List Point}
    (known : ∀ q ∈ found, q.In text) (places : ∀ p ∈ ends, ∀ q ∈ step p, q.In text) :
    (ends.foldl (fun found p => (step p).foldl reach found) found).findSome? k =
      (found.findSome? k).or (ends.findSome? fun p => (step p).findSome? k) := by
  induction ends generalizing found with
  | nil => simp
  | cons p rest ih =>
    have here := places p List.mem_cons_self
    rw [List.foldl_cons, ih (in_foldl_reach known here) fun q member =>
      places q (List.mem_cons_of_mem _ member), findSome?_foldl_reach fair known here,
      List.findSome?_cons, Option.or_assoc]
    cases (step p).findSome? k <;> rfl

theorem findSome?_chain (fair : Fair k) {ends : List Point}
    (places : ∀ p ∈ ends, ∀ q ∈ step p, q.In text) :
    (chain ends step).findSome? k = ends.findSome? fun p => (step p).findSome? k := by
  rw [chain, findSome?_foldl_step fair (fun _ member => absurd member List.not_mem_nil) places,
    List.findSome?_nil, Option.none_or]

/-! ### Further rounds of a loop -/

/-- Takes one more round of a loop first, if it consumes something, and then leaves it; `left`
bounds the rounds. -/
def runOnward (step : Point → List Point) (k : Point → Option α) : Nat → Point → Option α
  | 0, p => k p
  | left + 1, p =>
    (((step p).filter (p.offset < ·.offset)).findSome? (runOnward step k left)).or (k p)

theorem fair_runOnward (fair : Fair k) (uniform : Uniform step) (left : Nat) :
    Fair (runOnward step k left) := by
  induction left with
  | zero => exact fair
  | succ left ih =>
    intro p q same
    have further := ih.findSome? (filter_same (uniform p q same) p.offset)
    rw [runOnward, runOnward, Option.isSome_or, Option.isSome_or, fair p q same, further,
      same.offset]

theorem shorter_of_further (leads : ∀ p, ∀ q ∈ step p, p.Leads q) (place : p.In text) {q : Point}
    (member : q ∈ (step p).filter (p.offset < ·.offset)) :
    q.In text ∧ p.offset < q.offset ∧ q.rest.length < p.rest.length := by
  obtain ⟨listed, later⟩ := List.mem_filter.mp member
  have placeQ := (leads p q listed).2 text place
  have bound := placeQ.offset_le
  have later : p.offset < q.offset := by simpa using later
  rw [placeQ.length_rest, place.length_rest]
  exact ⟨placeQ, later, by omega⟩

/-- At the end of the text no further round consumes anything. -/
theorem runOnward_of_rest_eq_nil (leads : ∀ p, ∀ q ∈ step p, p.Leads q) (place : p.In text)
    (ended : p.rest = []) (left : Nat) : runOnward step k left p = k p := by
  cases left with
  | zero => rfl
  | succ left =>
    have stuck : (step p).filter (p.offset < ·.offset) = [] := by
      rw [List.eq_nil_iff_forall_not_mem]
      intro q member
      have shorter := (shorter_of_further leads place member).2.2
      exact Nat.not_lt_zero _ (ended ▸ shorter)
    rw [runOnward, stuck, List.findSome?_nil, Option.none_or]

/-- Fewer rounds than characters are left cannot be taken, so more of them make no difference. -/
theorem runOnward_eq (leads : ∀ p, ∀ q ∈ step p, p.Leads q) (place : p.In text) {left more : Nat}
    (enough : p.rest.length ≤ left) (enough' : p.rest.length ≤ more) :
    runOnward step k left p = runOnward step k more p := by
  induction left generalizing p more with
  | zero =>
    have ended : p.rest = [] := List.eq_nil_of_length_eq_zero (Nat.le_zero.mp enough)
    rw [runOnward_of_rest_eq_nil leads place ended more, runOnward]
  | succ left ih =>
    cases more with
    | zero =>
      have ended : p.rest = [] := List.eq_nil_of_length_eq_zero (Nat.le_zero.mp enough')
      rw [runOnward_of_rest_eq_nil leads place ended, runOnward]
    | succ more =>
      rw [runOnward, runOnward, findSome?_congr fun q member => ?_]
      obtain ⟨placeQ, -, shorter⟩ := shorter_of_further leads place member
      exact ih placeQ (by omega) (by omega)

/-- Nothing was found, and going on from the later places that are listed finds nothing either. -/
def Tried (step : Point → List Point) (k : Point → Option α) (bound : Nat) (found : List Point) :
    Prop :=
  found.findSome? k = none → ∀ q ∈ found, bound < q.offset →
    runOnward step k q.rest.length q = none

/-- A list of places `result` that was made from `found` is tried like `found` first and then
whatever has the outcome `outcome`. -/
structure Searched (text : List Char) (step : Point → List Point) (k : Point → Option α)
    (bound : Nat) (found : List Point) (outcome : Option α) (result : List Point) : Prop where
  search : result.findSome? k = (found.findSome? k).or outcome
  tried : Tried step k bound result
  known : ∀ q ∈ result, q.In text

/-- Places that are visited one after the other are tried one after the other. -/
theorem searched_foldl {visit : List Point → Point → List Point} {outcome : Point → Option α}
    {bound : Nat} {l found : List Point}
    (visits : ∀ q ∈ l, ∀ found, (∀ q ∈ found, q.In text) → Tried step k bound found →
      Searched text step k bound found (outcome q) (visit found q))
    (known : ∀ q ∈ found, q.In text) (tried : Tried step k bound found) :
    Searched text step k bound found (l.findSome? outcome) (l.foldl visit found) := by
  induction l generalizing found with
  | nil => exact ⟨by simp, tried, known⟩
  | cons q rest ih =>
    have first := visits q List.mem_cons_self found known tried
    have others := ih (fun x member => visits x (List.mem_cons_of_mem _ member)) first.known
      first.tried
    refine ⟨?_, others.tried, others.known⟩
    rw [List.foldl_cons, others.search, first.search, List.findSome?_cons, Option.or_assoc]
    cases outcome q <;> rfl

/-- A place that is listed already has nothing more to find. -/
theorem Tried.revisited (fair : Fair k) (uniform : Uniform step)
    (leads : ∀ p, ∀ q ∈ step p, p.Leads q) {left bound : Nat} {found : List Point}
    (known : ∀ q ∈ found, q.In text) (tried : Tried step k bound found) (place : p.In text)
    (later : bound < p.offset) (enough : p.rest.length ≤ left)
    (nothing : found.findSome? k = none) {q : Point} (member : q ∈ found)
    (same : q.offset = p.offset) : runOnward step k left p = none := by
  -- the place was left before with as much of the text ahead of it
  have placeQ := known q member
  have failed := tried nothing q member (by omega)
  have enoughQ : q.rest.length ≤ left := by
    rw [placeQ.length_rest, same, ← place.length_rest]
    exact enough
  refine (fair_runOnward fair uniform _).eq_none (placeQ.same place same) ?_
  rw [runOnward_eq leads placeQ enoughQ (Nat.le_refl _), failed]

/-- The loop that keeps account of the places it has been to finds what plain backtracking does. -/
theorem searched_onward (fair : Fair k) (uniform : Uniform step)
    (leads : ∀ p, ∀ q ∈ step p, p.Leads q) {left bound : Nat} {found : List Point}
    (known : ∀ q ∈ found, q.In text) (tried : Tried step k bound found) (place : p.In text)
    (later : bound < p.offset) (enough : p.rest.length ≤ left) :
    Searched text step k bound found (runOnward step k left p) (onward step true left found p) := by
  induction left generalizing found p bound with
  | zero =>
    have atEnd : p.rest.length = 0 := by omega
    refine ⟨findSome?_reach fair known place, ?_, in_reach known place⟩
    intro nothing q member above
    rw [onward, findSome?_reach fair known place, Option.or_eq_none_iff] at nothing
    rcases mem_reach member with old | rfl
    · exact tried nothing.1 q old above
    · rw [atEnd]
      exact nothing.2
  | succ left ih =>
    rw [onward]
    split
    · rename_i listed
      obtain ⟨q, member, same⟩ := List.any_eq_true.mp listed
      refine ⟨?_, tried, known⟩
      cases search : found.findSome? k with
      | some a => rfl
      | none =>
        rw [tried.revisited fair uniform leads known place later enough search member
          (by simpa using same), Option.or_none]
    · simp only [if_true]
      -- the induction hypothesis visits each of the further places, which have less ahead of them
      have rounds : Searched text step k bound found
          (((step p).filter (p.offset < ·.offset)).findSome? (runOnward step k left))
          (((step p).filter (p.offset < ·.offset)).foldl
            (fun found q => onward step true left found q) found) := by
        refine searched_foldl (fun q member found known tried => ?_) known tried
        obtain ⟨placeQ, above, shorter⟩ := shorter_of_further leads place member
        exact ih known tried placeQ (by omega) (by omega)
      have whole : (reach (((step p).filter (p.offset < ·.offset)).foldl
          (fun found q => onward step true left found q) found) p).findSome? k =
          (found.findSome? k).or (runOnward step k (left + 1) p) := by
        rw [findSome?_reach fair rounds.known place, rounds.search, Option.or_assoc, runOnward]
      refine ⟨whole, ?_, in_reach rounds.known place⟩
      intro nothing q member above
      rcases mem_reach member with old | rfl
      · rw [findSome?_reach fair rounds.known place, Option.or_eq_none_iff] at nothing
        exact rounds.tried nothing.1 q old above
      · rw [whole, Option.or_eq_none_iff] at nothing
        rw [runOnward_eq leads place (Nat.le_refl _) enough]
        exact nothing.2

/-- Every round consumes something. -/
def Consuming (step : Point → List Point) : Prop := ∀ p, ∀ q ∈ step p, p.offset < q.offset

theorem findSome?_oneOrMore (fair : Fair k) (uniform : Uniform step)
    (leads : ∀ p, ∀ q ∈ step p, p.Leads q) (consuming : Consuming step) (place : p.In text) :
    (oneOrMore step true p).findSome? k =
      (step p).findSome? fun q => runOnward step k q.rest.length q := by
  have rounds : Searched text step k p.offset []
      ((step p).findSome? fun q => runOnward step k q.rest.length q)
      (oneOrMore step true p) := by
    refine searched_foldl (fun q listed found known tried => ?_) (by simp)
      (fun _ q member => absurd member List.not_mem_nil)
    have later := consuming p q listed
    rw [if_neg (by omega)]
    exact searched_onward fair uniform leads known tried ((leads p q listed).2 text place) later
      (Nat.le_refl _)
  rw [rounds.search, List.findSome?_nil, Option.none_or]

theorem in_oneOrMore (leads : ∀ p, ∀ q ∈ step p, p.Leads q) (place : p.In text) :
    ∀ q ∈ oneOrMore step true p, q.In text := fun _ listed =>
  (related_oneOrMore Point.Leads.refl Point.Leads.trans leads listed).2 text place

theorem findSome?_zeroOrMore (fair : Fair k) (uniform : Uniform step)
    (leads : ∀ p, ∀ q ∈ step p, p.Leads q) (consuming : Consuming step) (place : p.In text) :
    (zeroOrMore step true p).findSome? k = runOnward step k p.rest.length p := by
  -- no round is left out for consuming nothing
  have further : (step p).filter (p.offset < ·.offset) = step p :=
    List.filter_eq_self.mpr fun q listed => by simpa using consuming p q listed
  rw [zeroOrMore, if_pos rfl, findSome?_reach fair (in_oneOrMore leads place) place,
    findSome?_oneOrMore fair uniform leads consuming place,
    runOnward_eq leads place (Nat.le_refl _) (Nat.le_succ _), runOnward, further]
  congr 1
  refine findSome?_congr fun q listed => ?_
  obtain ⟨placeQ, -, shorter⟩ := shorter_of_further leads place (further.symm ▸ listed)
  exact runOnward_eq leads placeQ (Nat.le_refl _) (by omega)

/-! ### Expressions -/

namespace Expr

/-- Tries what follows at the ends of an expression, the preferred ones first. -/
def run (e : Expr) (k : Point → Option α) (p : Point) : Option α := (e.ends p).findSome? k

theorem in_of_mem_ends (e : Expr) {q : Point} (place : p.In text) (h : q ∈ e.ends p) :
    q.In text := (e.leads_of_mem_ends h).2 text place

theorem fair_run (fair : Fair k) (e : Expr) : Fair (e.run k) :=
  fun p q same => fair.findSome? (e.ends_same p q same)

theorem run_congr {e : Expr} {k' : Point → Option α} (h : ∀ q ∈ e.ends p, k q = k' q) :
    e.run k p = e.run k' p := findSome?_congr h

theorem run_empty : Expr.empty.run k p = k p := by
  rw [run, ends, List.findSome?_singleton]

theorem run_set_of_nil (s : CodeSet) (atEnd : p.rest = []) : (Expr.set s).run k p = none := by
  rw [run, ends, Point.next?, atEnd]
  rfl

theorem run_set_of_cons (s : CodeSet) {c : Char} {rest : List Char} (h : p.rest = c :: rest) :
    (Expr.set s).run k p = if s.has c then k (p.past [c] rest) else none := by
  rw [run, ends, Point.next?_of_cons h]
  simp only
  split
  · exact List.findSome?_singleton
  · rfl

theorem run_look (condition : Look) :
    (Expr.look condition).run k p = if condition.holds p then k p else none := by
  rw [run, ends]
  split
  · exact List.findSome?_singleton
  · rfl

/-- To run a sequence is to run its first part before the second one. -/
theorem run_seq (fair : Fair k) (place : p.In text) (first second : Expr) :
    (first.seq second).run k p = first.run (second.run k) p :=
  findSome?_chain fair fun _ listed _ => second.in_of_mem_ends (first.in_of_mem_ends place listed)

theorem run_group (index : Nat) (body : Expr) :
    (body.group index).run k p = body.run (fun q => k (p.capture index q)) p := by
  rw [run, ends, List.findSome?_map]
  rfl

theorem fair_capture (fair : Fair k) (index : Nat) (p : Point) :
    Fair fun q => k (p.capture index q) :=
  fun _ _ same => fair _ _ ⟨same.before, same.offset, same.rest⟩

/-- When no further round is allowed, the places only join those that were reached. -/
theorem foldl_atMost_zero (body : Point → List Point) (ends found : List Point)
    (tried : List (Nat × Nat)) :
    ends.foldl (fun trail q => atMost body true 0 trail q) ⟨found, tried⟩ =
      ⟨ends.foldl reach found, tried⟩ := by
  induction ends generalizing found with
  | nil => rfl
  | cons q rest ih =>
    rw [List.foldl_cons, atMost]
    exact ih (reach found q)

/-- An optional part is tried first, then passed over. -/
theorem run_optional (fair : Fair k) (place : p.In text) (body : Expr) :
    (body.loop 0 (some 1) true).run k p = (body.run k p).or (k p) := by
  have inside : ∀ q ∈ body.ends p, q.In text := fun q listed => body.in_of_mem_ends place listed
  have places : ∀ q ∈ (body.ends p).foldl reach [], q.In text := in_foldl_reach (by simp) inside
  have found : (atMost body.ends true 1 ⟨[], []⟩ p).found =
      reach ((body.ends p).foldl reach []) p := by
    rw [atMost, if_neg (by simp)]
    show reach ((body.ends p).foldl _ (Trail.mk [] [(p.offset, 0)])).found p = _
    rw [foldl_atMost_zero]
  rw [run, ends, repeatedly, rounds, findSome?_chain fair, List.findSome?_singleton, found,
    findSome?_reach fair places place, findSome?_foldl_reach fair (by simp) inside]
  · rfl
  · intro q isStart x listed
    rw [List.mem_singleton.mp isStart, found] at listed
    exact in_reach places place x listed

/-- A loop takes one more round first, then is left. -/
theorem run_star (fair : Fair k) {body : Expr} (consuming : Consuming body.ends)
    (place : p.In text) :
    (body.loop 0 none true).run k p =
      (body.run ((body.loop 0 none true).run k) p).or (k p) := by
  have leads : ∀ p, ∀ q ∈ body.ends p, p.Leads q := fun _ _ => body.leads_of_mem_ends
  have rounds : ∀ {q : Point}, q.In text →
      (body.loop 0 none true).run k q = runOnward body.ends k q.rest.length q :=
    fun placeQ => findSome?_zeroOrMore fair body.ends_same leads consuming placeQ
  rw [run, ends, repeatedly, zeroOrMore, if_pos rfl,
    findSome?_reach fair (in_oneOrMore leads place) place,
    findSome?_oneOrMore fair body.ends_same leads consuming place]
  congr 1
  exact findSome?_congr fun q listed => (rounds (body.in_of_mem_ends place listed)).symm

/-- A loop that may not be passed over takes one round and goes on as any loop. -/
theorem run_plus (fair : Fair k) {body : Expr} (consuming : Consuming body.ends)
    (place : p.In text) :
    (body.loop 1 none true).run k p = body.run ((body.loop 0 none true).run k) p := by
  have leads : ∀ p, ∀ q ∈ body.ends p, p.Leads q := fun _ _ => body.leads_of_mem_ends
  have starts : ∀ x ∈ [p], ∀ q ∈ oneOrMore body.ends true x, q.In text := by
    intro x isStart
    rw [List.mem_singleton.mp isStart]
    exact in_oneOrMore leads place
  -- a single round that is required is the first of one or more
  rw [run, ends, repeatedly, rounds, findSome?_chain fair starts, List.findSome?_singleton,
    findSome?_oneOrMore fair body.ends_same leads consuming place]
  refine findSome?_congr fun q listed => ?_
  exact (findSome?_zeroOrMore fair body.ends_same leads consuming
    (body.in_of_mem_ends place listed)).symm

/-! ### Sequences of expressions -/

/-- Expressions one after the other. -/
def inSequence : List Expr → Expr
  | [] => .empty
  | e :: rest => .seq e (inSequence rest)

theorem run_inSequence_cons (fair : Fair k) (place : p.In text) (e : Expr) (es : List Expr) :
    (inSequence (e :: es)).run k p = e.run ((inSequence es).run k) p :=
  run_seq fair place e _

theorem run_inSequence_append (fair : Fair k) (place : p.In text) (es fs : List Expr) :
    (inSequence (es ++ fs)).run k p = (inSequence es).run ((inSequence fs).run k) p := by
  induction es generalizing p with
  | nil => rw [List.nil_append, inSequence, run_empty]
  | cons e es ih =>
    rw [List.cons_append, run_inSequence_cons fair place,
      run_inSequence_cons (fair_run fair _) place]
    exact run_congr fun q listed => ih (e.in_of_mem_ends place listed)

theorem run_singleton (fair : Fair k) (place : p.In text) (e : Expr) :
    (inSequence [e]).run k p = e.run k p := by
  rw [run_inSequence_cons fair place]
  exact run_congr fun _ _ => run_empty

theorem run_pair (fair : Fair k) (place : p.In text) (e f : Expr) :
    (inSequence [e, f]).run k p = e.run (f.run k) p := by
  rw [run_inSequence_cons fair place]
  exact run_congr fun q listed => run_singleton fair (e.in_of_mem_ends place listed) f

theorem consuming_set (s : CodeSet) : Consuming (set s).ends := by
  intro p q listed
  rw [ends] at listed
  split at listed
  · rename_i next
    split at listed
    · obtain ⟨rest, -, rfl⟩ := Point.rest_of_next? next
      rw [List.mem_singleton.mp listed]
      exact Nat.lt_succ_self _
    · exact absurd listed List.not_mem_nil
  · exact absurd listed List.not_mem_nil

theorem consuming_seq {first : Expr} (consuming : Consuming first.ends) (second : Expr) :
    Consuming (first.seq second).ends := by
  intro p q listed
  obtain ⟨middle, inFirst, inSecond⟩ := mem_chain listed
  exact Nat.lt_of_lt_of_le (consuming p middle inFirst) (second.leads_of_mem_ends inSecond).1

/-! ### Searches -/

/-- A match begins at the start of the text only. -/
def Anchored (e : Expr) : Prop := ∀ p : Point, p.before ≠ none → e.ends p = []

theorem anchored_textStart (parts : List Expr) :
    Anchored (inSequence (.look .textStart :: parts)) := by
  intro p inside
  have fails : (look .textStart).ends p = [] := by
    rw [ends, Look.holds, if_neg (by simpa using inside)]
  rw [inSequence, ends, fails]
  rfl

theorem Anchored.after_empty {e : Expr} (h : Anchored e) : Anchored (seq .empty e) := by
  intro p inside
  rw [ends, ends, chain, List.foldl_cons, h p inside]
  rfl

theorem head?_ends (e : Expr) (p : Point) : (e.ends p).head? = e.run some p := by
  rw [run]
  cases e.ends p <;> rfl

/-- Behind a character nothing of an anchored expression matches. -/
theorem Anchored.searchFrom?_eq_none {e : Expr} (anchored : Anchored e) (c : Char) (offset : Nat)
    (cs : List Char) : e.searchFrom? (some c) offset cs = none := by
  induction cs generalizing c offset with
  | nil =>
    rw [searchFrom?, anchored _ (by simp)]
    rfl
  | cons d cs ih =>
    rw [searchFrom?, anchored _ (by simp)]
    exact ih d (offset + 1)

/-- An anchored expression is tried at the start of the text only. -/
theorem search?_of_anchored {e : Expr} (anchored : Anchored e) (text : List Char) :
    e.search? text = e.run some (.start text) := by
  rw [search?, ← head?_ends, Point.start]
  cases text with
  | nil => rfl
  | cons c cs =>
    rw [searchFrom?]
    cases e.ends ⟨none, 0, c :: cs, []⟩ with
    | nil => exact anchored.searchFrom?_eq_none c 1 cs
    | cons p rest => rfl

end Expr

end Waymark.Regex
