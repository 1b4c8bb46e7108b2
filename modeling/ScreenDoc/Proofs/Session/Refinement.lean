import ScreenDoc.Proofs.Expansion.Recorded
import ScreenDoc.Proofs.Session.Run

/-!
# A session and its state

A session that is written to and subscribed to does to its state what the same requests do to a
state that stands alone, and its subscribers are told the same. This holds however often the views
are made anew in between, and however often that fails.

## Main definitions

- `Session.Request` — a write or a change of the subscriptions
- `Store.serve`, `Session.serve` — what a request does to a state and to a session
- `Session.Served` — the answer to a request, what the subscribers are told, and what is left

## Main results

- `Session.serve_refines` — one request does the same to the state of a session as to a bare state
- `Session.start_refines` — so do any requests, from the start of a session on, and a write that
  fails leaves all but the state as it was
-/

namespace ScreenDoc

namespace Session

/-! ### Requests -/

/-- A request to a session, or to a state that stands alone. -/
inductive Request where
  | write (call : Call)
  | subscribe
  | unsubscribe (id : Nat)

/-- The answer of the state to a request. -/
inductive Answer where
  | accepted
  | refused (error : AccessError)
  | subscribed (id : Nat)
  | unsubscribed (known : Bool)
deriving DecidableEq, Repr

/-- What a request leads to. -/
structure Served (σ : Type) where
  answer : Answer
  /-- Which subscriber is told of which change, in order. -/
  told : List (Nat × Change)
  after : σ

/-- What is seen of what requests lead to, and what is left in the end. -/
def Served.all {σ : Type} (serve : σ → Request → Served σ) (start : σ) :
    List Request → List (Answer × List (Nat × Change)) × σ
  | [] => ([], start)
  | request :: rest =>
    let served := serve start request
    let (seen, last) := all serve served.after rest
    ((served.answer, served.told) :: seen, last)

end Session

open Session (Request Answer Served Call)

namespace Store

/-- A write to a state that stands alone. -/
def write (store : Store) : Call → Except AccessError (Update Unit)
  | .set text value => store.setText text value
  | .toggle text => do
    let update ← store.toggle text
    return { update with result := () }

/-- What a request to a state leads to. -/
def serve (store : Store) : Request → Served Store
  | .write call =>
    match store.write call with
    | .ok update => ⟨.accepted, store.deliveries update.changes, update.store⟩
    | .error error => ⟨.refused error, [], store⟩
  | .subscribe => ⟨.subscribed store.subscribe.result, [], store.subscribe.store⟩
  | .unsubscribe id =>
    ⟨.unsubscribed (store.unsubscribe id).result, [], (store.unsubscribe id).store⟩

/-- What requests to a state lead to. -/
def serveAll (store : Store) : List Request → List (Answer × List (Nat × Change)) × Store :=
  Served.all serve store

end Store

namespace Session

/-- The answer of the state within the result of a write. When the views cannot be made anew, the
state has accepted the write before. -/
def Answer.ofResult : Except WriteError TreeUpdate → Answer
  | .error (.state error) => .refused error
  | .error (.expansion _) => .accepted
  | .ok _ => .accepted

/-- What a request to a session leads to. -/
def serve (session : Session) : Request → Served Session
  | .write call =>
    let outcome := session.call call
    ⟨.ofResult outcome.result, session.state.deliveries outcome.changes, outcome.session⟩
  | .subscribe => ⟨.subscribed session.subscribe.2, [], session.subscribe.1⟩
  | .unsubscribe id => ⟨.unsubscribed (session.unsubscribe id).2, [], (session.unsubscribe id).1⟩

/-- What requests to a session lead to. -/
def serveAll (session : Session) : List Request → List (Answer × List (Nat × Change)) × Session :=
  Served.all serve session

@[simp] theorem state_withState (session : Session) (store : Store) :
    (session.withState store).state = store := rfl

/-! ### Writes -/

theorem write_eq (store : Store) (call : Call) :
    store.write call =
      (Path.parse call.text).bind fun path => store.set path (call.valueOver store path) := by
  cases call with
  | set text value => rfl
  | toggle text =>
    rw [Store.write, Store.toggle, Store.setText, Store.read, Call.text, Path.parse]
    cases Path.ofText? text with
    | none => rfl
    | some path =>
      -- What is read from the text is read at the path that it writes.
      simp only [bind, Except.bind, Option.bind_some, Call.valueOver]
      cases store.set path (.bool !(((store.get? path).bind Value.bool?).getD false)) <;> rfl

/-- To settle a write never touches the state. It fails if the views cannot be made anew, and then
leaves everything as it was. -/
theorem settleGrown_cases (session : Session) (written : Path) (grown : Option Path) :
    (∃ update settled, session.settleGrown written grown = (.ok update, settled) ∧
        settled.state = session.state) ∨
      ∃ problem, session.settleGrown written grown = (.error (.expansion problem), session) := by
  rw [settleGrown]
  by_cases hneeds : session.needsRenewal written grown = true
  · rw [if_pos hneeds, renew]
    cases hbuild : session.rulebook.build session.document session.state true with
    | error problem => exact .inr ⟨problem, rfl⟩
    | ok built => exact .inl ⟨_, _, rfl, Rulebook.state_of_build hbuild⟩
  · rw [if_neg hneeds]
    exact .inl ⟨_, _, rfl, ViewTree.state_refreshAll _ _⟩

/-- A write that the state refuses changes nothing. -/
theorem call_of_refused {session : Session} {call : Call} {error : AccessError}
    (h : session.state.write call = .error error) :
    session.call call = ⟨.error (.state error), session, []⟩ := by
  rw [write_eq] at h
  rw [call_eq]
  cases hpath : Path.parse call.text with
  | error invalid =>
    rw [hpath] at h
    cases h
    rfl
  | ok path =>
    rw [hpath] at h
    have hset : session.state.set path (call.valueOver session.state path) = .error error := h
    simp only [setPath, hset]

/-- A write that the state accepts is settled over the new state. -/
theorem call_of_accepted {session : Session} {call : Call} {update : Update Unit}
    (h : session.state.write call = .ok update) :
    ∃ path grown,
      session.call call =
        ⟨((session.withState update.store).settleGrown path grown).1,
          ((session.withState update.store).settleGrown path grown).2, update.changes⟩ := by
  rw [write_eq] at h
  rw [call_eq]
  cases hpath : Path.parse call.text with
  | error invalid =>
    rw [hpath] at h
    cases h
  | ok path =>
    rw [hpath] at h
    have hset : session.state.set path (call.valueOver session.state path) = .ok update := h
    refine ⟨path, session.state.growth? path, ?_⟩
    simp only [setPath, hset]

/-- The ways in which a write can fail, and what is left of the session. -/
inductive Fails (session : Session) (call : Call) : WriteError → Session → Prop where
  /-- The state refuses the write. Nothing has changed. -/
  | refused {error : AccessError} (h : session.state.write call = .error error) :
    Fails session call (.state error) session
  /-- The views cannot be made anew. Nothing has changed but the state, by this write. -/
  | unsettled {update : Update Unit} (problem : Problem)
    (h : session.state.write call = .ok update) :
    Fails session call (.expansion problem) (session.withState update.store)

theorem fails_of_error {session : Session} {call : Call} {error : WriteError}
    (h : (session.call call).result = .error error) :
    session.Fails call error (session.call call).session := by
  cases hwrite : session.state.write call with
  | error refusal =>
    rw [call_of_refused hwrite] at h ⊢
    cases h
    exact .refused hwrite
  | ok update =>
    obtain ⟨path, grown, hcall⟩ := call_of_accepted hwrite
    rw [hcall] at h ⊢
    rcases settleGrown_cases (session.withState update.store) path grown with
      ⟨settled, after, hsettle, -⟩ | ⟨problem, hsettle⟩
    · rw [hsettle] at h
      cases h
    · rw [hsettle] at h ⊢
      cases h
      exact .unsettled problem hwrite

/-! ### Refinement -/

/-- One request does the same to the state of a session as to a bare state. -/
theorem serve_refines (session : Session) (request : Request) :
    (session.serve request).answer = (session.state.serve request).answer ∧
      (session.serve request).told = (session.state.serve request).told ∧
      (session.serve request).after.state = (session.state.serve request).after := by
  cases request with
  | write call =>
    simp only [serve, Store.serve]
    cases hwrite : session.state.write call with
    | error error =>
      rw [call_of_refused hwrite]
      exact ⟨rfl, rfl, rfl⟩
    | ok update =>
      obtain ⟨path, grown, hcall⟩ := call_of_accepted hwrite
      rw [hcall]
      -- The state has taken the write, whatever becomes of the views.
      rcases settleGrown_cases (session.withState update.store) path grown with
        ⟨settled, after, hsettle, hstate⟩ | ⟨problem, hsettle⟩
      · rw [hsettle]
        exact ⟨rfl, rfl, hstate⟩
      · rw [hsettle]
        exact ⟨rfl, rfl, rfl⟩
  | subscribe => exact ⟨rfl, rfl, rfl⟩
  | unsubscribe id => exact ⟨rfl, rfl, rfl⟩

theorem serveAll_refines (session : Session) (requests : List Request) :
    (session.serveAll requests).1 = (session.state.serveAll requests).1 ∧
      (session.serveAll requests).2.state = (session.state.serveAll requests).2 := by
  induction requests generalizing session with
  | nil => exact ⟨rfl, rfl⟩
  | cons request rest ih =>
    obtain ⟨hanswer, htold, hstate⟩ := serve_refines session request
    obtain ⟨hseen, hlast⟩ := ih (session.serve request).after
    rw [hstate] at hseen hlast
    simp only [serveAll, Store.serveAll, Served.all] at hseen hlast ⊢
    rw [hanswer, htold, hseen, hlast]
    exact ⟨rfl, rfl⟩

variable {document : Document} {rulebook : Rulebook} {session : Session}

/-- From the start of a session on, any requests get the same answers, tell the subscribers the same
and leave the same state as with a bare state. A write that fails leaves all but the state of the
session as it was, and the state too if that has refused the write. -/
theorem start_refines (h : start document rulebook = .ok session) (requests : List Request) :
    (session.serveAll requests).1 = ((Store.ofValues document.state).serveAll requests).1 ∧
      (session.serveAll requests).2.state =
        ((Store.ofValues document.state).serveAll requests).2 ∧
      ∀ call error, ((session.serveAll requests).2.call call).result = .error error →
        (session.serveAll requests).2.Fails call error
          ((session.serveAll requests).2.call call).session := by
  obtain ⟨hseen, hlast⟩ := serveAll_refines session requests
  rw [state_of_start h] at hseen hlast
  exact ⟨hseen, hlast, fun _ _ => fails_of_error⟩

/-- Two levels of layout. -/
def shallow : Rulebook :=
  { Rulebook.standard with limits := { Limits.standard with layout := 2 } }

/-- A document that boxes the text of each row. It is nested three levels deep, once there are
rows. -/
def boxedRows : Document :=
  { Document.ofTexts [] [("rows", .array []), ("title", .string "Rows")] with
    root.children := [.forEach ⟨none, "rows", "row", "i", .vertical, none, none, none⟩
      (.container ⟨.vertical, none, none, none, none, none, none⟩
        [.component { Leaf.ofType "text" with text := some "$\x7brow\x7d" }]) none] }

/-- A write after which the views cannot be made anew, one that is refused and one that goes
through, with one subscriber. Another row still makes the layout too deep. -/
theorem start_refines_boxedRows :
    let requests : List Request := [.subscribe, .write (.set "rows[0]" (.bool true)),
      .write (.toggle "rows..0"), .write (.toggle "title"), .unsubscribe 0]
    ∃ session, start boxedRows shallow = .ok session ∧
      (session.serveAll requests).1.map (fun seen => (seen.1, seen.2.length)) =
        [(.subscribed 0, 0), (.accepted, 1), (.refused (.invalidPath "rows..0"), 0),
          (.accepted, 1), (.unsubscribed true, 0)] ∧
      (session.serveAll requests).2.Fails (.set "rows[1]" .null) (.expansion (.depthExceeded 2))
        ((session.serveAll requests).2.call (.set "rows[1]" .null)).session := by
  intro requests
  have hfacts : (start boxedRows shallow).toOption.any (fun session =>
      match ((session.serveAll requests).2.call (.set "rows[1]" .null)).result with
      | .error (.expansion problem) => problem = .depthExceeded 2
      | _ => false) = true := by
    decide +kernel
  obtain ⟨session, hstart, hfailed⟩ := exists_of_any_toOption hfacts
  obtain ⟨hseen, -, hfails⟩ := start_refines hstart requests
  refine ⟨session, hstart, ?_, hfails _ _ ?_⟩
  · rw [hseen]
    decide +kernel
  · split at hfailed
    · next problem hresult =>
      rw [decide_eq_true_eq] at hfailed
      rw [hresult, hfailed]
    · cases hfailed

end Session

end ScreenDoc
