import RollupX.Model.Sequencer.Payload

/-! The listener for L1 events (`sequencer/src/l1/listener.rs`), from one connection to the
next. A subscription from a block delivers the events of that block and the later ones in
order. -/

namespace RollupX.Sequencer

/-- The transaction that `handle_forced_exit_event` adds to the queue: that of a deposit with
another event type. -/
def handleForcedExitEvent (log : L1Log) (nowSecs : UInt64) : ForcedTransaction :=
  { handleDepositEvent log nowSecs with eventType := .forcedExit }

structure L1Event where
  eventType : ForcedEventType
  log : L1Log
  deriving DecidableEq, Repr

namespace L1Event

def block (event : L1Event) : UInt64 :=
  event.log.blockNumber.getD 0

def handle (event : L1Event) (nowSecs : UInt64) : ForcedTransaction :=
  match event.eventType with
  | .deposit => handleDepositEvent event.log nowSecs
  | .forcedExit => handleForcedExitEvent event.log nowSecs

end L1Event

/-- What a subscription to one kind of event delivers. -/
def subscribeLogs (history : List L1Event) (eventType : ForcedEventType) (fromBlock : UInt64) :
    List L1Event :=
  history.filter fun event => event.eventType = eventType ∧ fromBlock ≤ event.block

/-- A connection: the variable of `listen_for_events`, and what the two streams have still to
deliver. -/
structure EventStreams where
  lastProcessedBlock : UInt64
  deposits : List L1Event
  forcedExits : List L1Event
  deriving DecidableEq, Repr

/-- `start` between two connections, or in one, and the events whose transactions were added to
the forced queue, each with the time. -/
structure L1Listener where
  currentBlock : UInt64
  streams : Option EventStreams
  added : List (L1Event × UInt64)
  deriving DecidableEq, Repr

inductive ListenerEvent where
  | connected
  | connectionFailed
  | deposit (nowSecs : UInt64)
  | forcedExit (nowSecs : UInt64)
  | ended
  deriving DecidableEq, Repr

/-- `checked_add(1)`; at the last number the variable stays. -/
def nextBlock (lastProcessedBlock : UInt64) : UInt64 :=
  if lastProcessedBlock = 18446744073709551615 then lastProcessedBlock
  else lastProcessedBlock + 1

namespace L1Listener

def start (startBlock : UInt64) : L1Listener :=
  ⟨startBlock, none, []⟩

def forcedTransactions (l : L1Listener) : List ForcedTransaction :=
  l.added.map fun (event, nowSecs) => event.handle nowSecs

/-- A connection fails before the first event is handled, and ends when both streams have. The
block to reconnect from is computed with the addition of the release build. -/
def step (history : List L1Event) (l : L1Listener) (event : ListenerEvent) : Option L1Listener :=
  match l.streams, event with
  | none, .connected =>
    some { l with
      streams := some ⟨l.currentBlock, subscribeLogs history .deposit l.currentBlock,
        subscribeLogs history .forcedExit l.currentBlock⟩ }
  | none, .connectionFailed => some l
  | some ⟨last, deposit :: deposits, forcedExits⟩, .deposit nowSecs =>
    some { l with
      streams := some ⟨nextBlock last, deposits, forcedExits⟩
      added := l.added ++ [(deposit, nowSecs)] }
  | some ⟨last, deposits, forcedExit :: forcedExits⟩, .forcedExit nowSecs =>
    some { l with
      streams := some ⟨nextBlock last, deposits, forcedExits⟩
      added := l.added ++ [(forcedExit, nowSecs)] }
  | some streams, .ended =>
    some { l with currentBlock := streams.lastProcessedBlock + 1, streams := none }
  | _, _ => none

end L1Listener

end RollupX.Sequencer
