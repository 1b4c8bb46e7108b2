import ScreenDoc.Proofs.History
import ScreenDoc.Store.Basic

/-!
# Subscribers of the state

Every change of the state is made by one kind of write, and every write is told to the subscribers
of that time, in the order in which they subscribed. Who they are follows from the answers that were
given before.

## Main definitions

- `Store.Wrote` — the writes that lead from one state to another
- `Store.Command`, `Store.respond` — what a state can be asked for, and what comes of it
- `Store.issued`, `Store.current` — the subscriptions that were made, and those that are left
- `Store.Command.IsIdle` — a command that finds nothing to change
- `Store.Moment.IsLawful` — what has to come of a command, by the moments before it

## Main results

- `Store.wrote_of_outcome` — all that a command changes, it changes by writes
- `Store.exists_setFields` — writing fields cannot fail half way
- `Store.Follows.isLawful_respond`, `Store.Follows.respond` — one command
- `Store.isLawful_of_run_empty` — all commands of a run
-/

namespace ScreenDoc

namespace Store

/-! ### Writes -/

/-- The writes that lead from a state to another one, each with what was and what is at its path. -/
inductive Wrote : Store → List Change → Store → Prop where
  | nil (store : Store) : Wrote store [] store
  | cons {store next last : Store} {path : Path} {value : Value} {changes : List Change}
      (hset : store.set path value = .ok ⟨(), next, [⟨path.text, store.get? path, value⟩]⟩)
      (hrest : Wrote next changes last) :
      Wrote store (⟨path.text, store.get? path, value⟩ :: changes) last

theorem Wrote.trans {store next last : Store} {first second : List Change}
    (h : Wrote store first next) (h' : Wrote next second last) :
    Wrote store (first ++ second) last := by
  induction h with
  | nil store => exact h'
  | cons hset _ ih => exact .cons hset (ih h')

variable {store : Store} {α : Type}

/-- A write makes one change, of what was and what is at its path. -/
theorem changes_set {path : Path} {value : Value} {update : Update Unit}
    (h : store.set path value = .ok update) :
    update.changes = [⟨path.text, store.get? path, value⟩] := by
  rw [set] at h
  split at h
  · cases h
  · split at h
    · cases h
      rfl
    · cases h

theorem wrote_set {path : Path} {value : Value} {update : Update Unit}
    (h : store.set path value = .ok update) :
    Wrote store update.changes update.store ∧ update.changes ≠ [] := by
  have hchanges := changes_set h
  obtain ⟨⟨⟩, next, changes⟩ := update
  obtain rfl : changes = _ := hchanges
  exact ⟨.cons h (.nil _), List.cons_ne_nil _ _⟩

/-- A write changes neither the subscriptions nor their count. -/
theorem subscribers_set {path : Path} {value : Value} {update : Update Unit}
    (h : store.set path value = .ok update) :
    update.store.subscribers = store.subscribers ∧
      update.store.nextSubscription = store.nextSubscription := by
  rw [set] at h
  split at h
  · cases h
  · split at h
    · cases h
      exact ⟨rfl, rfl⟩
    · cases h

theorem Wrote.subscribers {last : Store} {changes : List Change} (h : Wrote store changes last) :
    last.subscribers = store.subscribers ∧ last.nextSubscription = store.nextSubscription := by
  induction h with
  | nil store => exact ⟨rfl, rfl⟩
  | cons hset _ ih =>
    obtain ⟨hsame, hnext⟩ := subscribers_set hset
    exact ⟨ih.1.trans hsame, ih.2.trans hnext⟩

/-! ### Operations -/

/-- A write at a text is a write at the path that it writes. -/
theorem exists_set_of_setText {text : String} {value : Value} {update : Update Unit}
    (h : store.setText text value = .ok update) :
    ∃ path, Path.ofText? text = some path ∧ store.set path value = .ok update := by
  rw [setText, Path.parse] at h
  cases hpath : Path.ofText? text with
  | none =>
    rw [hpath] at h
    cases h
  | some path =>
    rw [hpath] at h
    exact ⟨path, rfl, h⟩

theorem wrote_setText {text : String} {value : Value} {update : Update Unit}
    (h : store.setText text value = .ok update) :
    Wrote store update.changes update.store ∧ update.changes ≠ [] := by
  obtain ⟨_, -, hset⟩ := exists_set_of_setText h
  exact wrote_set hset

/-- A boolean is turned by one write. -/
theorem exists_setText_of_toggle {text : String} {update : Update Bool}
    (h : store.toggle text = .ok update) :
    ∃ value, store.setText text value = .ok { update with result := () } := by
  rw [toggle] at h
  generalize hnext : (!((store.read text).bind Value.bool?).getD false) = next at h
  cases hset : store.setText text (.bool next) with
  | error error =>
    rw [hset] at h
    cases h
  | ok written =>
    rw [hset] at h
    cases h
    exact ⟨.bool next, hset⟩

theorem wrote_toggle {text : String} {update : Update Bool} (h : store.toggle text = .ok update) :
    Wrote store update.changes update.store ∧ update.changes ≠ [] := by
  obtain ⟨_, hset⟩ := exists_setText_of_toggle h
  exact wrote_setText hset

/-- Fewer items are left if the value is among them. -/
theorem containsItem_eq {text : String} (value : Value) {items : List Value}
    (h : store.array? text = some items) :
    store.containsItem text value =
      decide ((items.filter fun item => !(item == value)).length ≠ items.length) := by
  rw [containsItem, h, Bool.eq_iff_iff, decide_eq_true_eq, Ne, List.length_filter_eq_length_iff]
  simp

/-- Items are removed by one write, unless there are none. -/
theorem remove_cases {text : String} {value : Value} {update : Update Bool}
    (h : store.remove text value = .ok update) :
    (store.containsItem text value = false ∧ update = ⟨false, store, []⟩) ∨
      (store.containsItem text value = true ∧ update.result = true ∧
        ∃ kept, store.setText text kept = .ok { update with result := () }) := by
  rw [remove] at h
  cases harray : store.array? text with
  | none =>
    rw [harray] at h
    cases h
    refine .inl ⟨?_, rfl⟩
    rw [containsItem, harray]
  | some items =>
    have hcontains := containsItem_eq value harray
    rw [harray] at h
    dsimp only at h
    by_cases hsame : (items.filter fun item => !(item == value)).length = items.length
    · rw [if_pos hsame] at h
      cases h
      refine .inl ⟨?_, rfl⟩
      rw [hcontains, decide_eq_false (not_not_intro hsame)]
    · rw [if_neg hsame] at h
      cases hset : store.setText text (.array (items.filter fun item => !(item == value))) with
      | error error =>
        rw [hset] at h
        cases h
      | ok written =>
        rw [hset] at h
        cases h
        refine .inr ⟨?_, rfl, _, hset⟩
        rw [hcontains, decide_eq_true hsame]

/-- An item is removed by one write, unless there is none. -/
theorem wrote_remove {text : String} {value : Value} {update : Update Bool}
    (h : store.remove text value = .ok update) :
    Wrote store update.changes update.store ∧ update.result = store.containsItem text value ∧
      (update.changes = [] ↔ update.result = false) := by
  rcases remove_cases h with ⟨hcontains, rfl⟩ | ⟨hcontains, hresult, kept, hset⟩
  · exact ⟨.nil store, hcontains.symm, iff_of_true rfl rfl⟩
  · obtain ⟨hwrote, hne⟩ := wrote_setText hset
    refine ⟨hwrote, hresult.trans hcontains.symm, iff_of_false hne ?_⟩
    rw [hresult]
    decide

/-- An item is removed or appended, by one write. -/
theorem exists_setText_of_toggleIn {text : String} {value : Value} {update : Update Bool}
    (h : store.toggleIn text value = .ok update) :
    ∃ written, store.setText text written = .ok { update with result := () } := by
  rw [toggleIn] at h
  cases hremove : store.remove text value with
  | error error =>
    rw [hremove] at h
    cases h
  | ok removed =>
    rw [hremove] at h
    dsimp only [bind, Except.bind] at h
    rcases remove_cases hremove with ⟨-, rfl⟩ | ⟨-, hresult, kept, hset⟩
    · cases happend : store.append text value with
      | error error =>
        rw [happend] at h
        cases h
      | ok appended =>
        rw [happend] at h
        cases h
        exact ⟨_, happend⟩
    · rw [if_pos hresult] at h
      cases h
      exact ⟨kept, hset⟩

theorem wrote_toggleIn {text : String} {value : Value} {update : Update Bool}
    (h : store.toggleIn text value = .ok update) :
    Wrote store update.changes update.store ∧ update.changes ≠ [] := by
  obtain ⟨_, hset⟩ := exists_setText_of_toggleIn h
  exact wrote_setText hset

/-! ### Fields -/

/-- A top-level name can always be written. -/
theorem exists_set_ofKey (store : Store) (name : String) (value : Value) :
    ∃ update, store.set (Path.ofKey name) value = .ok update := ⟨_, rfl⟩

/-- Writing fields cannot fail half way. -/
theorem exists_setFields (store : Store) (fields : List (String × Value)) :
    ∃ update, store.setFields fields = .ok update := by
  induction fields generalizing store with
  | nil => exact ⟨_, rfl⟩
  | cons field rest ih =>
    obtain ⟨name, value⟩ := field
    rw [setFields]
    by_cases hdiffers : store.differsAt name value = true
    · rw [if_pos hdiffers]
      obtain ⟨update, hset⟩ := exists_set_ofKey store name value
      obtain ⟨others, hrest⟩ := ih update.store
      rw [hset]
      simp only [bind, Except.bind, hrest]
      exact ⟨_, rfl⟩
    · rw [if_neg hdiffers]
      exact ih store

/-- Fields are written one by one, and only those that differ. -/
theorem wrote_setFields {fields : List (String × Value)} {update : Update Unit}
    (h : store.setFields fields = .ok update) :
    Wrote store update.changes update.store ∧
      (update.changes = [] ↔ ∀ field ∈ fields, store.differsAt field.1 field.2 = false) := by
  induction fields generalizing store update with
  | nil =>
    cases h
    exact ⟨.nil _, fun _ _ hfield => absurd hfield List.not_mem_nil, fun _ => rfl⟩
  | cons field rest ih =>
    obtain ⟨name, value⟩ := field
    rw [setFields] at h
    by_cases hdiffers : store.differsAt name value = true
    · rw [if_pos hdiffers] at h
      obtain ⟨first, hset⟩ := exists_set_ofKey store name value
      obtain ⟨others, hrest⟩ := exists_setFields first.store rest
      rw [hset] at h
      simp only [bind, Except.bind, hrest] at h
      cases h
      obtain ⟨hwrote, hne⟩ := wrote_set hset
      refine ⟨hwrote.trans (ih hrest).1, fun hnil => ?_, fun hall => ?_⟩
      · exact absurd (List.append_eq_nil_iff.mp hnil).1 hne
      · have hsame := hall (name, value) List.mem_cons_self
        rw [hdiffers] at hsame
        cases hsame
    · rw [if_neg hdiffers] at h
      have hsame : store.differsAt name value = false := Bool.eq_false_iff.mpr hdiffers
      obtain ⟨hwrote, hnil⟩ := ih h
      exact ⟨hwrote, hnil.trans (by simp [hsame])⟩

/-! ### Commands -/

/-- What a state can be asked for. -/
inductive Command where
  | set (text : String) (value : Value)
  | setAt (path : Path) (value : Value)
  | toggle (text : String)
  | append (text : String) (value : Value)
  | remove (text : String) (value : Value)
  | toggleIn (text : String) (value : Value)
  | setAll (value : Value)
  | subscribe
  | unsubscribe (id : Nat)

/-- What a state answers. -/
inductive Reply where
  | done
  | told (flag : Bool)
  | failed (error : AccessError)
  | subscribed (id : Nat)
  | unsubscribed (known : Bool)
deriving DecidableEq, Repr

/-- Whether an answer is that of a write that went through. -/
def Reply.isSuccess : Reply → Bool
  | .done => true
  | .told _ => true
  | _ => false

/-- What was done, with an answer made of the result. -/
def answering (reply : α → Reply) (update : Update α) : Update Reply :=
  { update with result := reply update.result }

/-- What a command does to a state. -/
def outcome (store : Store) : Command → Except AccessError (Update Reply)
  | .set text value => (store.setText text value).map (answering fun _ => .done)
  | .setAt path value => (store.set path value).map (answering fun _ => .done)
  | .toggle text => (store.toggle text).map (answering .told)
  | .append text value => (store.append text value).map (answering fun _ => .done)
  | .remove text value => (store.remove text value).map (answering .told)
  | .toggleIn text value => (store.toggleIn text value).map (answering .told)
  | .setAll value => (store.setAll value).map (answering fun _ => .done)
  | .subscribe => .ok (answering .subscribed store.subscribe)
  | .unsubscribe id => .ok (answering .unsubscribed (store.unsubscribe id))

/-- Whether a command is meant to write. -/
def Command.isWrite : Command → Bool
  | .subscribe => false
  | .unsubscribe _ => false
  | _ => true

/-- Whether a command finds nothing to change: no item to remove, or no field that differs. -/
def Command.IsIdle (store : Store) : Command → Prop
  | .remove text value => store.containsItem text value = false
  | .setAll value => ∃ fields, value.finite = .object fields ∧
      ∀ field ∈ fields, store.differsAt field.1 field.2 = false
  | _ => False

theorem wrote_of_map {reply : α → Reply} {outcome : Except AccessError (Update α)}
    {update : Update Reply} {idle : Prop} (h : outcome.map (answering reply) = .ok update)
    (hreply : ∀ result, (reply result).isSuccess)
    (hwrote : ∀ written, outcome = .ok written →
      Wrote store written.changes written.store ∧ (written.changes = [] ↔ idle)) :
    Wrote store update.changes update.store ∧ (update.changes = [] ↔ idle) ∧
      update.result.isSuccess := by
  cases outcome with
  | error error => cases h
  | ok written =>
    cases h
    obtain ⟨hwrites, hidle⟩ := hwrote written rfl
    exact ⟨hwrites, hidle, hreply written.result⟩

/-- All that a command changes, it changes by writes, and it writes unless it is idle. -/
theorem wrote_of_outcome {command : Command} {update : Update Reply}
    (h : store.outcome command = .ok update) (hwrite : command.isWrite) :
    Wrote store update.changes update.store ∧ (update.changes = [] ↔ command.IsIdle store) ∧
      update.result.isSuccess := by
  have hdone : ∀ _ : Unit, Reply.done.isSuccess := fun _ => rfl
  have htold : ∀ flag, (Reply.told flag).isSuccess := fun _ => rfl
  have hbusy {changes : List Change} {last : Store} (hwrote : Wrote store changes last ∧
      changes ≠ []) : Wrote store changes last ∧ (changes = [] ↔ False) :=
    ⟨hwrote.1, fun hnil => hwrote.2 hnil, False.elim⟩
  cases command with
  | set text value => exact wrote_of_map h hdone fun _ hset => hbusy (wrote_setText hset)
  | setAt path value => exact wrote_of_map h hdone fun _ hset => hbusy (wrote_set hset)
  | toggle text => exact wrote_of_map h htold fun _ htoggle => hbusy (wrote_toggle htoggle)
  | append text value => exact wrote_of_map h hdone fun _ happend => hbusy (wrote_setText happend)
  | toggleIn text value =>
    exact wrote_of_map h htold fun _ htoggle => hbusy (wrote_toggleIn htoggle)
  | remove text value =>
    refine wrote_of_map h htold fun removed hremove => ?_
    obtain ⟨hwrote, hresult, hnil⟩ := wrote_remove hremove
    rw [hresult] at hnil
    exact ⟨hwrote, hnil⟩
  | setAll value =>
    refine wrote_of_map h hdone fun written hset => ?_
    rw [setAll] at hset
    cases hfinite : value.finite with
    | object fields =>
      rw [hfinite] at hset
      obtain ⟨hwrote, hnil⟩ := wrote_setFields hset
      refine ⟨hwrote, fun hchanges => ⟨fields, hfinite, hnil.mp hchanges⟩, ?_⟩
      rintro ⟨others, hothers, hall⟩
      rw [hfinite] at hothers
      cases hothers
      exact hnil.mpr hall
    | _ =>
      rw [hfinite] at hset
      cases hset
  | subscribe => cases hwrite
  | unsubscribe id => cases hwrite

/-! ### Runs -/

/-- A command, and what came of it. -/
structure Moment where
  before : Store
  command : Command
  reply : Reply
  /-- Which subscriber was told of which change, in order. -/
  told : List (Nat × Change)
  after : Store

/-- What comes of a command. -/
def respond (store : Store) (command : Command) : Moment :=
  match store.outcome command with
  | .ok update => ⟨store, command, update.result, store.deliveries update.changes, update.store⟩
  | .error error => ⟨store, command, .failed error, [], store⟩

/-- What comes of commands, one after the other. -/
def run (store : Store) : List Command → List Moment
  | [] => []
  | command :: rest => store.respond command :: (store.respond command).after.run rest

/-- The number of the subscription that was made. -/
def Moment.issued? (moment : Moment) : Option Nat :=
  match moment.reply with
  | .subscribed id => some id
  | _ => none

/-- Whether a subscription was removed. -/
def Moment.removes (id : Nat) (moment : Moment) : Bool :=
  match moment.command with
  | .unsubscribe other => other = id
  | _ => false

/-- The subscriptions that were made. -/
def issued (moments : List Moment) : List Nat :=
  moments.filterMap Moment.issued?

/-- The subscriptions that were made and not removed since, in order. -/
def current (moments : List Moment) : List Nat :=
  survivors Moment.issued? Moment.removes moments

/-- A state that has the subscriptions that are left after some moments. -/
structure Follows (earlier : List Moment) (store : Store) : Prop where
  issued : Store.issued earlier = List.range store.nextSubscription
  current : store.subscribers = Store.current earlier

/-- What comes of a command, by the moments before it. -/
structure Moment.IsLawful (earlier : List Moment) (moment : Moment) : Prop where
  /-- No subscription is there twice. -/
  once : (Store.current earlier).Nodup
  /-- A subscription gets a number that no earlier one has had. -/
  subscribe : moment.command = .subscribe →
    ∃ id, moment.reply = .subscribed id ∧ id ∉ Store.issued earlier ∧
      id = (Store.issued earlier).length ∧
      moment.told = [] ∧ moment.after.values = moment.before.values
  /-- A subscription is removed if it was made and not removed since. -/
  unsubscribe : ∀ id, moment.command = .unsubscribe id →
    moment.reply = .unsubscribed (decide (id ∈ Store.current earlier)) ∧
      moment.told = [] ∧ moment.after.values = moment.before.values
  /-- Every write is told to all that are subscribed, and nothing else changes the state. -/
  write : moment.command.isWrite →
    ∃ writes, Wrote moment.before writes moment.after ∧
      moment.told = (writes.flatMap fun change =>
        (Store.current earlier).map fun id => (id, change)) ∧
      (writes = [] ↔ (∃ error, moment.reply = .failed error) ∨
        moment.command.IsIdle moment.before)

theorem length_filter_ne_iff {ids : List Nat} {id : Nat} :
    (ids.filter (· ≠ id)).length ≠ ids.length ↔ id ∈ ids := by
  rw [Ne, List.length_filter_eq_length_iff]
  simp

theorem command_respond (store : Store) (command : Command) :
    (store.respond command).command = command := by
  rw [respond]
  cases store.outcome command <;> rfl

/-- What comes of a write: it is refused and changes nothing, or it goes through. -/
theorem respond_of_isWrite (store : Store) {command : Command} (hwrite : command.isWrite) :
    (∃ error, store.respond command = ⟨store, command, .failed error, [], store⟩) ∨
      ∃ reply changes last, Reply.isSuccess reply ∧ Wrote store changes last ∧
        (changes = [] ↔ command.IsIdle store) ∧
        store.respond command = ⟨store, command, reply, store.deliveries changes, last⟩ := by
  rw [respond]
  cases houtcome : store.outcome command with
  | error error => exact .inl ⟨error, rfl⟩
  | ok update =>
    obtain ⟨hwrote, hidle, hsuccess⟩ := wrote_of_outcome houtcome hwrite
    exact .inr ⟨update.result, update.changes, update.store, hsuccess, hwrote, hidle, rfl⟩

namespace Follows

variable {earlier : List Moment}

theorem empty : Follows [] empty := ⟨rfl, rfl⟩

theorem nodup_current (h : Follows earlier store) : (Store.current earlier).Nodup := by
  have hissued : (Store.issued earlier).Nodup := by
    rw [h.issued]
    exact List.nodup_range
  exact hissued.sublist (survivors_sublist _ _ _)

/-- What comes of a command follows from the moments before it. -/
theorem isLawful_respond (h : Follows earlier store) (command : Command) :
    (store.respond command).IsLawful earlier where
  once := h.nodup_current
  subscribe hcommand := by
    rw [command_respond] at hcommand
    subst hcommand
    refine ⟨store.nextSubscription, rfl, ?_, ?_, rfl, rfl⟩
    · rw [h.issued]
      exact List.not_mem_range_self
    · rw [h.issued, List.length_range]
  unsubscribe id hcommand := by
    rw [command_respond] at hcommand
    subst hcommand
    refine ⟨congrArg Reply.unsubscribed ?_, rfl, rfl⟩
    rw [← h.current]
    exact decide_eq_decide.mpr length_filter_ne_iff
  write hwrite := by
    rw [command_respond] at hwrite
    rcases respond_of_isWrite store hwrite with
      ⟨error, hrespond⟩ | ⟨reply, changes, last, hsuccess, hwrote, hidle, hrespond⟩
    · rw [hrespond]
      exact ⟨[], .nil store, rfl, fun _ => .inl ⟨error, rfl⟩, fun _ => rfl⟩
    · rw [hrespond]
      refine ⟨changes, hwrote, ?_, fun hnil => .inr (hidle.mp hnil), ?_⟩
      · rw [← h.current]
        rfl
      · rintro (⟨error, rfl⟩ | hidle')
        · cases hsuccess
        · exact hidle.mpr hidle'

theorem of_quiet (h : Follows earlier store) {moment : Moment} (hissued : moment.issued? = none)
    (hremoves : ∀ id, moment.removes id = false)
    (hsubscribers : moment.after.subscribers = store.subscribers)
    (hnext : moment.after.nextSubscription = store.nextSubscription) :
    Follows (earlier ++ [moment]) moment.after := by
  constructor
  · rw [Store.issued, List.filterMap_append, ← Store.issued, h.issued, hnext,
      List.filterMap_cons, hissued, List.filterMap_nil, List.append_nil]
  · rw [hsubscribers, h.current, Store.current, Store.current, survivors_append_singleton, hissued,
      Option.toList_none, List.append_nil]
    exact (List.filter_eq_self.mpr fun id _ => by rw [hremoves]; rfl).symm

/-- The subscriptions that are left follow from the moments, with one more. -/
theorem respond (h : Follows earlier store) (command : Command) :
    Follows (earlier ++ [store.respond command]) (store.respond command).after := by
  by_cases hwrite : command.isWrite = true
  · have hremoves : ∀ id, (store.respond command).removes id = false := by
      intro id
      rw [Moment.removes, command_respond]
      cases command <;> first | rfl | cases hwrite
    rcases respond_of_isWrite store hwrite with
      ⟨error, hrespond⟩ | ⟨reply, changes, last, hsuccess, hwrote, -, hrespond⟩
    · rw [hrespond] at hremoves ⊢
      exact h.of_quiet rfl hremoves rfl rfl
    · obtain ⟨hsubscribers, hnext⟩ := hwrote.subscribers
      rw [hrespond] at hremoves ⊢
      refine h.of_quiet ?_ hremoves hsubscribers hnext
      cases reply <;> first | rfl | cases hsuccess
  · cases command with
    | subscribe =>
      constructor
      · rw [Store.issued, List.filterMap_append, ← Store.issued, h.issued]
        exact List.range_succ.symm
      · rw [Store.current, survivors_append_singleton, ← Store.current, ← h.current]
        refine congrArg (· ++ [store.nextSubscription]) ?_
        exact (List.filter_eq_self.mpr fun id _ => rfl).symm
    | unsubscribe id =>
      constructor
      · rw [Store.issued, List.filterMap_append, ← Store.issued, h.issued]
        exact List.append_nil _
      · rw [Store.current, survivors_append_singleton, ← Store.current, ← h.current]
        refine Eq.trans ?_ (List.append_nil _).symm
        refine List.filter_congr fun other _ => ?_
        simp [Moment.removes, Store.respond, outcome, eq_comm]
    | _ => exact absurd rfl hwrite

/-- Every moment of a run follows from the moments before it. -/
theorem isLawful_of_run {commands : List Command} {middle later : List Moment} {moment : Moment}
    (h : Follows earlier store) (hrun : store.run commands = middle ++ moment :: later) :
    moment.IsLawful (earlier ++ middle) := by
  induction commands generalizing earlier store middle with
  | nil => exact absurd hrun.symm (by simp [run])
  | cons command rest ih =>
    rw [run] at hrun
    cases middle with
    | nil =>
      obtain ⟨rfl, -⟩ := List.cons.inj hrun
      rw [List.append_nil]
      exact h.isLawful_respond command
    | cons first middle =>
      obtain ⟨rfl, hrest⟩ := List.cons.inj hrun
      rw [List.append_cons]
      exact ih (h.respond command) hrest

end Follows

/-- Whatever a new state is asked for, in whatever order: subscriptions get numbers that no earlier
one has had, and are removed just if they are there; every write is told to all subscribers of that
time, once and in the order in which they subscribed; and a command that fails or finds nothing to
change tells nobody. -/
theorem isLawful_of_run_empty (commands : List Command) :
    ∀ earlier moment later, empty.run commands = earlier ++ moment :: later →
      moment.IsLawful earlier :=
  fun _ _ _ hrun => Follows.empty.isLawful_of_run hrun

/-- Three subscriptions, one of which is removed, and writes that go through, fail or are idle. -/
def exchange : List Command :=
  [.subscribe, .subscribe, .set "rows[1]" (.bool true), .unsubscribe 0, .unsubscribe 0,
    .toggle "rows..0", .remove "rows" (.bool false), .subscribe,
    .setAll (.object [("flag", .bool true), ("rows", .null)])]

theorem isLawful_of_run_empty_exchange :
    ∃ earlier moment, empty.run exchange = earlier ++ moment :: [] ∧ moment.IsLawful earlier ∧
      earlier.map Moment.reply = [.subscribed 0, .subscribed 1, .done, .unsubscribed true,
        .unsubscribed false, .failed (.invalidPath "rows..0"), .told false, .subscribed 2] ∧
      current earlier = [1, 2] ∧
      moment.told.map (fun delivery => (delivery.1, delivery.2.path)) =
        [(1, "flag"), (2, "flag"), (1, "rows"), (2, "rows")] := by
  have hsplit := (List.dropLast_append_getLast (l := empty.run exchange) (by decide)).symm
  exact ⟨_, _, hsplit, isLawful_of_run_empty exchange _ _ [] hsplit, by decide +kernel,
    by decide +kernel, by decide +kernel⟩

end Store

end ScreenDoc
