import RollupX.Library.Resumption
import RollupX.Library.Run
import RollupX.Model.Sequencer.L1Listener

/-! Whether every L1 event reaches the forced queue once. -/

namespace RollupX.Sequencer

open Machine Resumption

def ListenerStep (history : List L1Event) (l : L1Listener) (event : ListenerEvent)
    (l' : L1Listener) : Prop :=
  l.step history event = some l'

def EventStreams.rest (s : EventStreams) : List L1Event :=
  s.deposits ++ s.forcedExits

def L1Listener.handled (l : L1Listener) : List L1Event :=
  l.added.map Prod.fst

/-- Everything that a step can do. -/
inductive ListenerEffect (history : List L1Event) (l : L1Listener) :
    ListenerEvent → L1Listener → Prop where
  | connected : l.streams = none →
      ListenerEffect history l .connected { l with
        streams := some ⟨l.currentBlock, subscribeLogs history .deposit l.currentBlock,
          subscribeLogs history .forcedExit l.currentBlock⟩ }
  | connectionFailed : l.streams = none → ListenerEffect history l .connectionFailed l
  | handled {event s s' taken nowSecs} : l.streams = some s →
      s.rest.Perm (taken :: s'.rest) →
      s'.lastProcessedBlock = nextBlock s.lastProcessedBlock →
      ListenerEffect history l event { l with
        streams := some s', added := l.added ++ [(taken, nowSecs)] }
  | ended {s} : l.streams = some s →
      ListenerEffect history l .ended { l with
        currentBlock := s.lastProcessedBlock + 1, streams := none }

theorem listener_effect {history : List L1Event} {l l' : L1Listener} {event : ListenerEvent}
    (h : ListenerStep history l event l') : ListenerEffect history l event l' := by
  unfold ListenerStep L1Listener.step at h
  split at h
  · rename_i hstreams
    cases h
    exact .connected hstreams
  · rename_i hstreams
    cases h
    exact .connectionFailed hstreams
  · rename_i hstreams
    cases h
    exact .handled hstreams (List.Perm.refl _) rfl
  · rename_i hstreams
    cases h
    exact .handled hstreams List.perm_middle rfl
  · rename_i hstreams
    cases h
    exact .ended hstreams
  · cases h

theorem subscribeLogs_perm (history : List L1Event) (fromBlock : UInt64) :
    (subscribeLogs history .deposit fromBlock ++
        subscribeLogs history .forcedExit fromBlock).Perm
      (history.filter fun event => fromBlock.toNat ≤ event.block.toNat) := by
  have hkinds : ∀ event : L1Event,
      (event.eventType = .forcedExit) ↔ ¬ (event.eventType = .deposit) := by
    intro event
    cases event.eventType <;> simp
  have h := List.filter_append_perm (fun event : L1Event => event.eventType = .deposit)
    (history.filter fun event => fromBlock.toNat ≤ event.block.toNat)
  simpa only [subscribeLogs, List.filter_filter, hkinds, Bool.decide_and, decide_not,
    UInt64.le_iff_toNat_le] using h

def eventsFrom (history : List L1Event) (block : UInt64) : ℕ :=
  history.countP fun event => block.toNat ≤ event.block.toNat

def L1Listener.delivered (history : List L1Event) (l : L1Listener) (s : EventStreams) : ℕ :=
  eventsFrom history l.currentBlock - s.rest.length

/-- The variable of `listen_for_events` is the block subscribed from plus the number of events
delivered, as far as a `u64` goes. -/
def L1Listener.Counts (history : List L1Event) (l : L1Listener) : Prop :=
  ∀ s, l.streams = some s → s.rest.length ≤ eventsFrom history l.currentBlock ∧
    s.lastProcessedBlock.toNat =
      min (l.currentBlock.toNat + l.delivered history s) (2 ^ 64 - 1)

theorem toNat_nextBlock (block : UInt64) :
    (nextBlock block).toNat = min (block.toNat + 1) (2 ^ 64 - 1) := by
  have hlt := block.toNat_lt
  unfold nextBlock
  split_ifs with hlast
  · rw [hlast]
    rfl
  · have hne : block.toNat ≠ 18446744073709551615 := fun h => hlast (UInt64.toNat_inj.mp h)
    rw [UInt64.toNat_add, UInt64.toNat_one]
    omega

theorem ListenerEffect.counts {history : List L1Event} {l l' : L1Listener}
    {event : ListenerEvent} (h : ListenerEffect history l event l') (hl : l.Counts history) :
    l'.Counts history := by
  cases h with
  | connected hstreams =>
    intro s hs
    cases hs
    have hlength := (subscribeLogs_perm history l.currentBlock).length_eq
    rw [← List.countP_eq_length_filter] at hlength
    have hlt := l.currentBlock.toNat_lt
    simp only [L1Listener.delivered, EventStreams.rest, hlength, eventsFrom]
    omega
  | connectionFailed hstreams => exact hl
  | @handled event s s' taken nowSecs hstreams hperm hnext =>
    intro s'' hs
    cases hs
    obtain ⟨hle, hcounter⟩ := hl s hstreams
    have hlength := hperm.length_eq
    rw [List.length_cons] at hlength
    rw [hnext, toNat_nextBlock, hcounter]
    simp only [L1Listener.delivered] at *
    omega
  | ended hstreams =>
    intro s hs
    cases hs

theorem counts_of_run {history : List L1Event} {startBlock : UInt64}
    {events : List ListenerEvent} {l : L1Listener}
    (hr : Run (ListenerStep history) (.start startBlock) events l) : l.Counts history :=
  hr.invariant_of_step (I := fun l => l.Counts history)
    (fun _ _ _ h hstep => (listener_effect hstep).counts h) (by intro s hs; cases hs)

/-- Where the streams of a connection from block `b` end after `n` events, the blocks `b` to
`b + n` have `n` events, and none of these is still to be delivered. -/
def EndsWithBlock (history : List L1Event) (l : L1Listener) (event : ListenerEvent) : Prop :=
  match l.streams, event with
  | some s, .ended =>
    let first := l.currentBlock.toNat
    let n := l.delivered history s
    first + n + 1 < 2 ^ 64 ∧
      history.countP (fun e => first ≤ e.block.toNat ∧ e.block.toNat < first + n + 1) = n ∧
      ∀ e ∈ s.rest, first + n + 1 ≤ e.block.toNat
  | _, _ => True

instance (history : List L1Event) (l : L1Listener) (event : ListenerEvent) :
    Decidable (EndsWithBlock history l event) := by
  unfold EndsWithBlock
  split <;> infer_instance

/-- Between two connections what lies before the next block was handled, and in one what was
not handled is still to be delivered. -/
def L1Listener.Tracks (history : List L1Event) (l : L1Listener) : Prop :=
  match l.streams with
  | none => Settled (fun e : L1Event => e.block.toNat) history l.handled l.currentBlock.toNat
  | some s => Pending history l.handled s.rest

theorem ListenerEffect.tracks {history : List L1Event} {l l' : L1Listener}
    {event : ListenerEvent} (h : ListenerEffect history l event l')
    (hends : EndsWithBlock history l event) (hcounts : l.Counts history)
    (hl : l.Tracks history) : l'.Tracks history := by
  cases h with
  | connected hstreams =>
    rw [L1Listener.Tracks, hstreams] at hl
    exact hl.pending (subscribeLogs_perm history l.currentBlock)
  | connectionFailed hstreams => exact hl
  | handled hstreams hperm =>
    rw [L1Listener.Tracks, hstreams] at hl
    change Pending history (List.map Prod.fst (l.added ++ [(_, _)])) _
    rw [List.map_append]
    exact hl.take hperm
  | @ended s hstreams =>
    rw [L1Listener.Tracks, hstreams] at hl
    simp only [EndsWithBlock, hstreams] at hends
    obtain ⟨hmax, hcount, hrest⟩ := hends
    obtain ⟨hle, hcounter⟩ := hcounts s hstreams
    have hresume : (s.lastProcessedBlock + 1).toNat =
        l.currentBlock.toNat + l.delivered history s + 1 := by
      rw [UInt64.toNat_add, UInt64.toNat_one, hcounter]
      omega
    change Settled _ history l.handled (s.lastProcessedBlock + 1).toNat
    rw [hresume]
    have hstart : l.currentBlock.toNat ≤ l.currentBlock.toNat + l.delivered history s + 1 := by
      omega
    have htaken := hl.before_of_countP hstart hrest (by
        rw [hcount]
        unfold L1Listener.delivered eventsFrom at *
        omega)
    exact hl.settled htaken hrest

def L1Listener.Drained (l : L1Listener) : Prop :=
  ∃ last, l.streams = some ⟨last, [], []⟩

/-- If the streams of every connection end where the blocks counted over have been delivered, one
event for each but the first, the forced queue has got one transaction for each event, once a
connection has delivered all it has. -/
theorem handled_perm_of_endsWithBlock (history : List L1Event) (startBlock : UInt64)
    (hstart : ∀ e ∈ history, startBlock ≤ e.block) (events : List ListenerEvent)
    (l : L1Listener) (hr : Run (ListenerStep history) (.start startBlock) events l)
    (hends : Along (ListenerStep history) (EndsWithBlock history) (.start startBlock) events)
    (hdrained : l.Drained) :
    ∃ order : List (L1Event × UInt64), (order.map Prod.fst).Perm history ∧
      l.forcedTransactions = order.map fun (event, nowSecs) => event.handle nowSecs := by
  have hinitial : (L1Listener.start startBlock).Tracks history :=
    settled_start fun e he => UInt64.le_iff_toNat_le.mp (hstart e he)
  have hend : l.Counts history ∧ l.Tracks history :=
    hr.invariant (I := fun l => l.Counts history ∧ l.Tracks history)
      (fun _ _ _ h hok hstep =>
        ⟨(listener_effect hstep).counts h.1, (listener_effect hstep).tracks hok h.1 h.2⟩)
      hends ⟨counts_of_run (.nil _), hinitial⟩
  obtain ⟨last, hstreams⟩ := hdrained
  have htracks := hend.2
  rw [L1Listener.Tracks, hstreams] at htracks
  exact ⟨l.added, htracks.perm, rfl⟩

def eventAt (eventType : ForcedEventType) (block : UInt64) (n : UInt8) : L1Event :=
  ⟨eventType, ⟨Vector.replicate 20 n, Vector.replicate 20 n, 1, some (Vector.replicate 32 n),
    some block⟩⟩

def sparseHistory : List L1Event :=
  [eventAt .deposit 100 1, eventAt .deposit 102 2, eventAt .forcedExit 104 3]

def sparseRun : List ListenerEvent :=
  [.connected, .deposit 0, .ended, .connectionFailed, .connected, .deposit 5, .forcedExit 6]

theorem handled_perm_sparseHistory :
    ∃ l, Run (ListenerStep sparseHistory) (.start 100) sparseRun l ∧ l.Drained ∧
      ∃ order : List (L1Event × UInt64), (order.map Prod.fst).Perm sparseHistory ∧
        l.forcedTransactions = order.map fun (event, nowSecs) => event.handle nowSecs := by
  obtain ⟨l, hr, hstreams⟩ := exists_run_of_foldlM (L1Listener.step sparseHistory) (.start 100)
    sparseRun L1Listener.streams (b := some ⟨104, [], []⟩) (by decide +kernel)
  have hends : Along (ListenerStep sparseHistory) (EndsWithBlock sparseHistory) (.start 100)
      sparseRun :=
    Along.of_check (f := L1Listener.step sparseHistory) (by decide +kernel)
  exact ⟨l, hr, ⟨_, hstreams⟩, handled_perm_of_endsWithBlock sparseHistory 100 (by decide)
    sparseRun l hr hends ⟨_, hstreams⟩⟩

/-- Two deposits three blocks after the start: the first is handled, the block counted to is
one of those before it, and it is handled again. With three deposits in the first block the
listener has counted past the block of a fourth one, which it never sees. -/
theorem handled_twice_and_never :
    (∃ l, Run (ListenerStep [eventAt .deposit 103 1, eventAt .deposit 103 2]) (.start 100)
        [.connected, .deposit 0, .ended, .connected, .deposit 5, .deposit 5] l ∧
      l.streams = some ⟨104, [], []⟩ ∧
      l.handled = [eventAt .deposit 103 1, eventAt .deposit 103 1, eventAt .deposit 103 2]) ∧
    ∃ l, Run (ListenerStep [eventAt .deposit 100 1, eventAt .deposit 100 2,
          eventAt .deposit 100 3, eventAt .deposit 102 4]) (.start 100)
        [.connected, .deposit 0, .deposit 0, .deposit 0, .ended, .connected] l ∧
      l.streams = some ⟨104, [], []⟩ ∧
      l.handled = [eventAt .deposit 100 1, eventAt .deposit 100 2, eventAt .deposit 100 3] := by
  constructor
  · obtain ⟨l, hr, h⟩ := exists_run_of_foldlM
      (L1Listener.step [eventAt .deposit 103 1, eventAt .deposit 103 2]) (.start 100)
      [.connected, .deposit 0, .ended, .connected, .deposit 5, .deposit 5]
      (fun l => (l.streams, l.handled))
      (b := (some ⟨104, [], []⟩,
        [eventAt .deposit 103 1, eventAt .deposit 103 1, eventAt .deposit 103 2]))
      (by decide +kernel)
    exact ⟨l, hr, Prod.mk.inj h⟩
  · obtain ⟨l, hr, h⟩ := exists_run_of_foldlM
      (L1Listener.step [eventAt .deposit 100 1, eventAt .deposit 100 2, eventAt .deposit 100 3,
        eventAt .deposit 102 4]) (.start 100)
      [.connected, .deposit 0, .deposit 0, .deposit 0, .ended, .connected]
      (fun l => (l.streams, l.handled))
      (b := (some ⟨104, [], []⟩,
        [eventAt .deposit 100 1, eventAt .deposit 100 2, eventAt .deposit 100 3]))
      (by decide +kernel)
    exact ⟨l, hr, Prod.mk.inj h⟩

end RollupX.Sequencer
