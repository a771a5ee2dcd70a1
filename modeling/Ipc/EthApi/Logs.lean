/-
**`eth_getLogs` over the ABCI results of the blocks (`get_logs`, `to_logs`, `matches_topics`).**

A block's transactions come with their results, each a list of ABCI events. An event of kind
`event` is an actor event: its attributes name the emitter (`emitter.id`, and `emitter.deleg` for
an f410 emitter), up to four topics (`t1`..`t4`) and the data (`d`). `get_logs` walks the
heights of the filter's range, stopping at the first height without results, and in each block
walks the transactions that decode as signed messages. Attribute values are modelled as parsed:
an attribute carries what its value parses to, or `none` where the parse fails.

The filter works at two levels. **The address filter is on transactions**: a transaction whose
sender, recipient or any emitter is in the list gives all its logs, whatever their addresses. The
topic filter is on logs (`matchesTopics`), and a position holding an empty array matches no log.
A log's `logIndex` is its position among the transaction's `event` events plus an offset that
grows by the number of **all** events of each transaction the walk keeps.

* `matchesTopics_iff` — the topic filter, position by position;
* `toLogs_indexes` — the logs of a transaction are numbered from the offset, in the order of its
  `event` events;
* `mem_txLogs` — every log returned for a block comes from a signed transaction that passes the
  address filter, and matches the topics.
-/

import Mathlib
import Ipc.Api.Evm
import Ipc.Lib.System

namespace Ipc.EthApi

open Ipc.Lib
open Ipc.Api (Address Payload EthAddress)

/-! ### Blocks, events and logs -/

/-- An attribute of an ABCI event, by the key `to_logs` looks for, its value parsed. -/
inductive EventAttribute
  /-- `emitter.deleg`: the emitter's f410 address. -/
  | emitterDeleg (addr : Option Address)
  /-- `emitter.id`: the emitter's actor id. -/
  | emitterId (actorId : Option UInt64)
  /-- `t1`..`t4`: a topic, hex-decoded; `index` is the key's digit less one. -/
  | topic (index : Fin 4) (word : Option (List UInt8))
  /-- `d`: the data, hex-decoded. -/
  | data (bytes : Option (List UInt8))
  /-- `hash`: a transaction hash, hex-decoded. -/
  | hash (word : Option (List UInt8))
  /-- Any other key. -/
  | other

/-- An ABCI event: its kind and attributes. -/
structure AbciEvent where
  kind : String
  attributes : List EventAttribute

/-- What a transaction's bytes decode to (`ChainMessage`): a signed message, with its sender and
recipient, or anything else. -/
inductive ChainMessage
  | signed (fromAddr toAddr : Address)
  | other

/-- A transaction: what it decodes to, and the Tendermint hash of its bytes. -/
structure Tx where
  message : ChainMessage
  rawHash : Nat

/-- A block at a height with results: its hash, its transactions, and their results, which
`block_results` may leave out. -/
structure Block where
  hash : Nat
  txs : List Tx
  txsResults : Option (List (List AbciEvent))

/-- An Ethereum log (`et::Log`); `removed` is always `false` and `log_type` always absent. -/
structure Log where
  address : EthAddress
  topics : List (List UInt8)
  data : List UInt8
  blockHash : Nat
  blockNumber : Nat
  transactionHash : Nat
  transactionIndex : Nat
  logIndex : Nat
  transactionLogIndex : Nat

/-- One position of a topic filter (`ValueOrArray<Option<H256>>`). -/
inductive TopicEntry
  | value (topic : Option (List UInt8))
  | array (topics : List (Option (List UInt8)))

/-- The part of a filter `get_logs` reads once the range is resolved: the addresses and the four
topic positions (`[Option<Topic>; 4]`). -/
structure Filter where
  addresses : List EthAddress
  topics : Fin 4 → Option TopicEntry

/-! ### From events to logs -/

namespace EventAttribute

def emitterDeleg? : EventAttribute → Option (Option Address)
  | emitterDeleg addr => some addr
  | _ => none

def emitterId? : EventAttribute → Option (Option UInt64)
  | emitterId actorId => some actorId
  | _ => none

def hash? : EventAttribute → Option (Option (List UInt8))
  | hash word => some word
  | _ => none

end EventAttribute

/-- `EthAddress::from_id`: `0xff`, eleven zero bytes, and the id. -/
def ethAddressFromId (actorId : UInt64) : EthAddress :=
  ⟨0xff :: List.replicate 11 0 ++ beBytes 8 actorId.toNat, by simp⟩

/-- `to_eth_address`: an f410 address is its twenty bytes, the EAM itself is none, and with
`allow_masked` an id address is its masked form. -/
def toEthAddress (addr : Address) (allowMasked : Bool) : Except String (Option EthAddress) :=
  match addr.payload with
  | .delegated actorNamespace subaddress =>
    if fits : actorNamespace = 10 ∧ subaddress.length = 20 then .ok (some ⟨subaddress, fits.2⟩)
    else .error "not an Ethereum address"
  | .id actorId =>
    if actorId = 10 then .ok none
    else if allowMasked then .ok (some (ethAddressFromId actorId))
    else .error "not an Ethereum address"
  | _ => .error "not an Ethereum address"

/-- One attribute into the topics and the data: a topic must decode to 32 bytes and goes to its
position, the topics before it filled with zero words. The source's messages go on with the
attribute itself, which the model leaves out. -/
def topicsAndDataStep (acc : List (List UInt8) × Option (List UInt8)) :
    EventAttribute → Except String (List (List UInt8) × Option (List UInt8))
  | .topic index word => do
    let bz ← word.elim (.error "failed to decode attr value as hex") .ok
    if bz.length ≠ 32 then throw "unexpected topic value"
    let i := index.val
    let topics := acc.1 ++ List.replicate (i + 1 - acc.1.length) (List.replicate 32 0)
    pure (topics.set i bz, acc.2)
  | .data bytes => do
    let bz ← bytes.elim (.error "failed to decode attr value as hex") .ok
    pure (acc.1, some bz)
  | _ => pure acc

/-- `to_topics_and_data`. -/
def toTopicsAndData (attrs : List EventAttribute) :
    Except String (List (List UInt8) × List UInt8) := do
  let (topics, data) ← attrs.foldlM topicsAndDataStep ([], none)
  pure (topics, data.getD [])

example : toTopicsAndData [.topic 1 (some (List.replicate 32 7)), .other] =
    .ok ([List.replicate 32 0, List.replicate 32 7], []) := by
  rfl

/-- An event of kind `event`. -/
def AbciEvent.isEvent (event : AbciEvent) : Bool := event.kind == "event"

/-- The log of the `idx`-th `event` of a transaction. -/
def toLog (blockHash blockNumber transactionHash transactionIndex logIndexStart : Nat)
    (event : AbciEvent) (idx : Nat) : Except String Log := do
  let addr := (event.attributes.findSome? EventAttribute.emitterDeleg?).join
  let actorId ← ((event.attributes.findSome? EventAttribute.emitterId?).join).elim
    (.error "cannot find the 'emitter.id' key") .ok
  let address := ((addr.bind fun a => (toEthAddress a true).toOption).join).getD
    (ethAddressFromId actorId)
  -- `.context(..)` and the `{:#}` of the JSON-RPC error put the context before the cause
  let (topics, data) ← (toTopicsAndData event.attributes).mapError
    ("failed to collect topics and data: " ++ ·)
  pure ⟨address, topics, data, blockHash, blockNumber, transactionHash, transactionIndex,
    idx + logIndexStart, idx⟩

/-- `to_logs`: the logs of a transaction's `event` events, numbered from `log_index_start`. -/
def toLogs (events : List AbciEvent) (blockHash blockNumber transactionHash transactionIndex
    logIndexStart : Nat) : Except String (List Log) :=
  ((events.filter AbciEvent.isEvent).zipIdx).mapM fun (event, idx) =>
    toLog blockHash blockNumber transactionHash transactionIndex logIndexStart event idx

/-- `collect_emitters`: the f410 and id addresses of the emitters of `event` events. -/
def collectEmitters (events : List AbciEvent) : List Address :=
  (events.filter AbciEvent.isEvent).flatMap fun event =>
    [(event.attributes.findSome? EventAttribute.emitterDeleg?).join,
      ((event.attributes.findSome? EventAttribute.emitterId?).join).map Address.newId].reduceOption

/-- `msg_hash`: the hash an `eth` event carries, or the Tendermint hash of the transaction. -/
def msgHash (events : List AbciEvent) (rawHash : Nat) : Nat :=
  let found := ((events.find? (·.kind == "eth")).bind fun event =>
    (event.attributes.findSome? EventAttribute.hash?).join).filter (·.length = 32)
  (found.map beValue).getD rawHash

/-- The test `matches_topics` makes at a position with an entry: a topic is the log's topic
there, an array lists it among its non-null topics, and a null topic admits anything. -/
def TopicEntry.matches (entry : TopicEntry) (topic : Option (List UInt8)) : Bool :=
  match entry with
  | .value (some t) => topic == some t
  | .array ts => ts.reduceOption.any fun t => topic == some t
  | .value none => true

/-- `matches_topics`: every position with an entry admits the log's topic there. -/
def matchesTopics (topics : Fin 4 → Option TopicEntry) (log : Log) : Bool :=
  (List.finRange 4).all fun i =>
    match topics i with
    | none => true
    | some entry => entry.matches log.topics[i.val]?

/-- Whether a transaction passes the address filter: the filter is empty, or holds its sender,
its recipient or one of its emitters. -/
def passesAddresses (addrs : List Address) (fromAddr toAddr : Address) (emitters : List Address) :
    Bool :=
  !(!addrs.isEmpty && !addrs.contains fromAddr && !addrs.contains toAddr &&
    addrs.all fun addr => !emitters.contains addr)

/-- The loop of `get_logs` over a block's transactions and their results, with the running
`log_index_start`. -/
def txLogs (addrs : List Address) (topics : Fin 4 → Option TopicEntry) (blockHash blockNumber : Nat) :
    List ((List AbciEvent × Nat) × Tx) → Nat → Except String (List Log)
  | [], _ => .ok []
  | ((events, txIdx), tx) :: rest, logIndexStart =>
    match tx.message with
    | .other => txLogs addrs topics blockHash blockNumber rest logIndexStart
    | .signed fromAddr toAddr =>
      if !passesAddresses addrs fromAddr toAddr (collectEmitters events) then
        txLogs addrs topics blockHash blockNumber rest logIndexStart
      else do
        let logs ← toLogs events blockHash blockNumber (msgHash events tx.rawHash) txIdx
          logIndexStart
        let more ← txLogs addrs topics blockHash blockNumber rest
          (logIndexStart + events.length)
        pure (logs.filter (matchesTopics topics) ++ more)

/-- The loop of `get_logs` over the heights; it stops at the first height without results. -/
def heightLogs (chain : Nat → Option Block) (addrs : List Address)
    (topics : Fin 4 → Option TopicEntry) : List Nat → Except String (List Log)
  | [] => .ok []
  | height :: rest =>
    match chain height with
    | none => .ok []
    | some block =>
      match block.txsResults with
      | none => heightLogs chain addrs topics rest
      | some results => do
        let here ← txLogs addrs topics block.hash height (results.zipIdx.zip block.txs) 0
        let more ← heightLogs chain addrs topics rest
        pure (here ++ more)

/-- `get_logs` from the resolved heights of the filter's range (a block hash resolves to its own
height twice). The addresses become fvm addresses by `From<EthAddress> for Address` of the EAM
interface, the conversion `EthAddress.toAddress` models. -/
def getLogs (chain : Nat → Option Block) (filter : Filter) (fromHeight toHeight : Nat) :
    Except String (List Log) :=
  heightLogs chain (filter.addresses.map EthAddress.toAddress) filter.topics
    (List.range' fromHeight (toHeight + 1 - fromHeight))

/-! ### The topic filter -/

section Topics

/-- An array admits exactly the topics it lists. -/
theorem TopicEntry.matches_array_iff {ts : List (Option (List UInt8))}
    {topic : Option (List UInt8)} :
    (TopicEntry.array ts).matches topic = true ↔ ∃ t, some t ∈ ts ∧ topic = some t := by
  simp only [TopicEntry.matches, List.any_eq_true, List.reduceOption_mem_iff, beq_iff_eq]

/-- The topic filter, position by position. -/
theorem matchesTopics_iff {topics : Fin 4 → Option TopicEntry} {log : Log} :
    matchesTopics topics log = true ↔
      ∀ i entry, topics i = some entry → entry.matches log.topics[i.val]? = true := by
  simp only [matchesTopics, List.all_eq_true, List.mem_finRange, true_implies]
  constructor
  · intro all i entry held
    have admitted := all i
    rwa [held] at admitted
  · intro all i
    cases held : topics i with
    | none => rfl
    | some entry => exact all i entry held

/-- A position holding an empty array admits no log: `matches_topics` reads it as "one of none",
where the Ethereum filter reads it as no constraint. -/
theorem matchesTopics_empty_array {topics : Fin 4 → Option TopicEntry} {i : Fin 4}
    (empty : topics i = some (.array [])) (log : Log) : matchesTopics topics log = false := by
  rw [← Bool.not_eq_true, matchesTopics_iff]
  intro all
  obtain ⟨t, listed, -⟩ := TopicEntry.matches_array_iff.mp (all i _ empty)
  exact List.not_mem_nil listed

end Topics

/-! ### The logs of one transaction -/

section Transaction

variable {blockHash blockNumber transactionHash transactionIndex logIndexStart : Nat}

/-- What `to_logs` sets from its arguments on the log of a transaction's `idx`-th `event`. -/
structure Log.Placed (log : Log) (blockHash blockNumber transactionHash transactionIndex
    logIndexStart idx : Nat) : Prop where
  blockHash_eq : log.blockHash = blockHash
  blockNumber_eq : log.blockNumber = blockNumber
  transactionHash_eq : log.transactionHash = transactionHash
  transactionIndex_eq : log.transactionIndex = transactionIndex
  logIndex_eq : log.logIndex = idx + logIndexStart
  transactionLogIndex_eq : log.transactionLogIndex = idx

theorem toLog_placed {event : AbciEvent} {idx : Nat} {log : Log}
    (ok : toLog blockHash blockNumber transactionHash transactionIndex logIndexStart event idx =
      .ok log) :
    log.Placed blockHash blockNumber transactionHash transactionIndex logIndexStart idx := by
  rw [toLog, bind_eq_ok] at ok
  obtain ⟨actorId, -, ok⟩ := ok
  obtain ⟨⟨topics, data⟩, -, done⟩ := bind_eq_ok.mp ok
  cases done
  exact ⟨rfl, rfl, rfl, rfl, rfl, rfl⟩

/-- `to_logs` gives one log for each `event` of the transaction, the `k`-th numbered
`k + log_index_start`. -/
theorem toLogs_placed {events : List AbciEvent} {logs : List Log}
    (ok : toLogs events blockHash blockNumber transactionHash transactionIndex logIndexStart =
      .ok logs) :
    logs.length = (events.filter AbciEvent.isEvent).length ∧
      ∀ k (lt : k < logs.length),
        logs[k].Placed blockHash blockNumber transactionHash transactionIndex logIndexStart k := by
  rw [toLogs, mapM_eq_ok] at ok
  have sameLength := ok.length_eq
  rw [List.length_zipIdx] at sameLength
  refine ⟨sameLength.symm, fun k lt => ?_⟩
  have inZip : k < ((events.filter AbciEvent.isEvent).zipIdx).length := by
    rw [List.length_zipIdx, sameLength]
    exact lt
  have made := ok.get inZip lt
  simp only [List.get_eq_getElem, List.getElem_zipIdx, Nat.zero_add] at made
  exact toLog_placed made

theorem mem_toLogs {events : List AbciEvent} {logs : List Log} {log : Log}
    (ok : toLogs events blockHash blockNumber transactionHash transactionIndex logIndexStart =
      .ok logs) (mem : log ∈ logs) :
    log.blockHash = blockHash ∧ log.blockNumber = blockNumber ∧
      log.transactionHash = transactionHash ∧ log.transactionIndex = transactionIndex := by
  obtain ⟨k, lt, rfl⟩ := List.mem_iff_getElem.mp mem
  have placed := (toLogs_placed ok).2 k lt
  exact ⟨placed.blockHash_eq, placed.blockNumber_eq, placed.transactionHash_eq,
    placed.transactionIndex_eq⟩

end Transaction

/-! ### The loop over a block's transactions -/

section Block

variable {addrs : List Address} {topics : Fin 4 → Option TopicEntry} {blockHash blockNumber : Nat}

/-- Whether the loop keeps a transaction: it decodes as a signed message and passes the address
filter. -/
def kept (addrs : List Address) (entry : (List AbciEvent × Nat) × Tx) : Bool :=
  match entry.2.message with
  | .other => false
  | .signed fromAddr toAddr => passesAddresses addrs fromAddr toAddr (collectEmitters entry.1.1)

/-- How far a run of transactions advances `log_index_start`: by all the events, of every kind,
of each transaction the loop keeps. -/
def logIndexAdvance (addrs : List Address) (entries : List ((List AbciEvent × Nat) × Tx)) : Nat :=
  ((entries.filter (kept addrs)).map fun entry => entry.1.1.length).sum

/-- The address filter holds a transaction's sender, its recipient or one of its emitters; the
addresses of its logs play no part. -/
theorem passesAddresses_iff {emitters : List Address} {fromAddr toAddr : Address} :
    passesAddresses addrs fromAddr toAddr emitters = true ↔
      addrs = [] ∨ fromAddr ∈ addrs ∨ toAddr ∈ addrs ∨ ∃ a ∈ addrs, a ∈ emitters := by
  -- the last conjunct of the source's test: no filter address is an emitter
  have shared : (addrs.all fun addr => !emitters.contains addr) = false ↔
      ∃ a ∈ addrs, a ∈ emitters := by
    simp only [List.all_eq_false, Bool.not_eq_true, Bool.not_eq_false', List.contains_iff_mem]
  simp only [passesAddresses, Bool.not_and, Bool.not_not, Bool.or_eq_true, List.isEmpty_iff,
    List.contains_iff_mem, Bool.not_eq_true']
  rw [shared, or_assoc, or_assoc]

theorem kept_iff {entry : (List AbciEvent × Nat) × Tx} :
    kept addrs entry = true ↔ ∃ fromAddr toAddr, entry.2.message = .signed fromAddr toAddr ∧
      passesAddresses addrs fromAddr toAddr (collectEmitters entry.1.1) = true := by
  rw [kept]
  split
  · next signedNot => simp only [signedNot, Bool.false_eq_true, reduceCtorEq, false_and, exists_false]
  · next fromAddr toAddr signed =>
    rw [signed]
    constructor
    · intro passes
      exact ⟨fromAddr, toAddr, rfl, passes⟩
    · rintro ⟨fromAddr', toAddr', same, passes⟩
      cases same
      exact passes

theorem logIndexAdvance_cons (entry : (List AbciEvent × Nat) × Tx)
    (rest : List ((List AbciEvent × Nat) × Tx)) :
    logIndexAdvance addrs (entry :: rest) =
      (if kept addrs entry then entry.1.1.length else 0) + logIndexAdvance addrs rest := by
  cases keep : kept addrs entry <;>
    simp [logIndexAdvance, keep]

/-- The loop passes over a transaction it does not keep, with the offset as it was. -/
theorem txLogs_skip {entry : (List AbciEvent × Nat) × Tx} {rest : List ((List AbciEvent × Nat) × Tx)}
    {start : Nat} (skip : kept addrs entry = false) :
    txLogs addrs topics blockHash blockNumber (entry :: rest) start =
      txLogs addrs topics blockHash blockNumber rest start := by
  obtain ⟨⟨events, txIdx⟩, ⟨message, rawHash⟩⟩ := entry
  cases message with
  | other => rfl
  | signed fromAddr toAddr =>
    simp only [kept] at skip
    simp only [txLogs, skip, Bool.not_false, if_true]

/-- A transaction the loop keeps gives the logs of its events that match the topics, numbered
from the offset, which then grows by all its events. -/
theorem txLogs_keep {entry : (List AbciEvent × Nat) × Tx} {rest : List ((List AbciEvent × Nat) × Tx)}
    {start : Nat} (keep : kept addrs entry = true) :
    txLogs addrs topics blockHash blockNumber (entry :: rest) start =
      (toLogs entry.1.1 blockHash blockNumber (msgHash entry.1.1 entry.2.rawHash) entry.1.2 start
        >>= fun logs => txLogs addrs topics blockHash blockNumber rest (start + entry.1.1.length)
        >>= fun more => pure (logs.filter (matchesTopics topics) ++ more)) := by
  obtain ⟨⟨events, txIdx⟩, ⟨message, rawHash⟩⟩ := entry
  cases message with
  | other => cases keep
  | signed fromAddr toAddr =>
    simp only [kept] at keep
    simp only [txLogs, keep, Bool.not_true, Bool.false_eq_true, if_false]

/-- Every log the loop returns matches the topics and comes from a transaction it keeps: this
block, that transaction's index and hash. -/
theorem mem_txLogs {log : Log} :
    ∀ {entries : List ((List AbciEvent × Nat) × Tx)} {start : Nat} {logs : List Log},
      txLogs addrs topics blockHash blockNumber entries start = .ok logs → log ∈ logs →
      log.blockHash = blockHash ∧ log.blockNumber = blockNumber ∧
        matchesTopics topics log = true ∧
        ∃ entry ∈ entries, kept addrs entry = true ∧ log.transactionIndex = entry.1.2 ∧
          log.transactionHash = msgHash entry.1.1 entry.2.rawHash
  | [], _, _, ok, mem => by
    cases ok
    cases mem
  | entry :: rest, start, logs, ok, mem => by
    cases keep : kept addrs entry with
    | false =>
      rw [txLogs_skip keep] at ok
      obtain ⟨sameBlock, sameNumber, matched, source, listed, sourceKept, sourceFields⟩ :=
        mem_txLogs ok mem
      exact ⟨sameBlock, sameNumber, matched, source, List.mem_cons_of_mem _ listed, sourceKept,
        sourceFields⟩
    | true =>
      rw [txLogs_keep keep] at ok
      obtain ⟨here, made, ok⟩ := bind_eq_ok.mp ok
      obtain ⟨more, madeMore, done⟩ := bind_eq_ok.mp ok
      cases done
      rcases List.mem_append.mp mem with fromHere | fromMore
      · -- a log of this transaction that passed the topic filter
        obtain ⟨inHere, matched⟩ := List.mem_filter.mp fromHere
        obtain ⟨sameBlock, sameNumber, sameHash, sameIndex⟩ := mem_toLogs made inHere
        exact ⟨sameBlock, sameNumber, matched, entry, List.mem_cons_self, keep, sameIndex,
          sameHash⟩
      · obtain ⟨sameBlock, sameNumber, matched, source, listed, sourceKept, sourceFields⟩ :=
          mem_txLogs madeMore fromMore
        exact ⟨sameBlock, sameNumber, matched, source, List.mem_cons_of_mem _ listed, sourceKept,
          sourceFields⟩

/-- Every transaction the loop keeps has all its logs that match the topics among those
returned, in a row, and numbered from the offset the loop reaches it with: all the events of the
transactions kept before it. -/
theorem txLogs_kept {entry : (List AbciEvent × Nat) × Tx}
    {post : List ((List AbciEvent × Nat) × Tx)} (keep : kept addrs entry = true) :
    ∀ {pre : List ((List AbciEvent × Nat) × Tx)} {start : Nat} {logs : List Log},
      txLogs addrs topics blockHash blockNumber (pre ++ entry :: post) start = .ok logs →
      ∃ here, toLogs entry.1.1 blockHash blockNumber (msgHash entry.1.1 entry.2.rawHash) entry.1.2
          (start + logIndexAdvance addrs pre) = .ok here ∧
        here.filter (matchesTopics topics) <:+: logs
  | [], start, logs, ok => by
    rw [List.nil_append, txLogs_keep keep] at ok
    obtain ⟨here, made, ok⟩ := bind_eq_ok.mp ok
    obtain ⟨more, -, done⟩ := bind_eq_ok.mp ok
    cases done
    exact ⟨here, made, (List.prefix_append _ _).isInfix⟩
  | before :: pre, start, logs, ok => by
    rw [List.cons_append] at ok
    cases keepBefore : kept addrs before with
    | false =>
      rw [txLogs_skip keepBefore] at ok
      obtain ⟨here, made, inLogs⟩ := txLogs_kept keep ok
      rw [logIndexAdvance_cons, keepBefore, if_neg Bool.false_ne_true, Nat.zero_add]
      exact ⟨here, made, inLogs⟩
    | true =>
      rw [txLogs_keep keepBefore] at ok
      obtain ⟨logsBefore, -, ok⟩ := bind_eq_ok.mp ok
      obtain ⟨more, madeMore, done⟩ := bind_eq_ok.mp ok
      cases done
      obtain ⟨here, made, inMore⟩ := txLogs_kept keep madeMore
      rw [logIndexAdvance_cons, keepBefore, if_pos rfl, ← Nat.add_assoc]
      exact ⟨here, made, inMore.trans (List.suffix_append _ _).isInfix⟩

end Block

/-! ### The loop over the heights -/

section Heights

variable {chain : Nat → Option Block} {addrs : List Address}
  {topics : Fin 4 → Option TopicEntry}

/-- Every log the loop over the heights returns comes from a block at one of them, with results,
and from a transaction of that block the loop keeps. -/
theorem mem_heightLogs {log : Log} :
    ∀ {heights : List Nat} {logs : List Log},
      heightLogs chain addrs topics heights = .ok logs → log ∈ logs →
      log.blockNumber ∈ heights ∧ matchesTopics topics log = true ∧
        ∃ block results, chain log.blockNumber = some block ∧ block.txsResults = some results ∧
          log.blockHash = block.hash ∧
          ∃ entry ∈ results.zipIdx.zip block.txs, kept addrs entry = true ∧
            log.transactionIndex = entry.1.2 ∧
            log.transactionHash = msgHash entry.1.1 entry.2.rawHash
  | [], _, ok, mem => by
    cases ok
    cases mem
  | height :: rest, logs, ok, mem => by
    rw [heightLogs] at ok
    cases found : chain height with
    | none =>
      -- the loop breaks at a height without results
      rw [found] at ok
      cases ok
      cases mem
    | some block =>
      simp only [found] at ok
      cases withResults : block.txsResults with
      | none =>
        simp only [withResults] at ok
        obtain ⟨later, matched, rest'⟩ := mem_heightLogs ok mem
        exact ⟨List.mem_cons_of_mem _ later, matched, rest'⟩
      | some results =>
        simp only [withResults] at ok
        obtain ⟨here, madeHere, ok⟩ := bind_eq_ok.mp ok
        obtain ⟨more, madeMore, done⟩ := bind_eq_ok.mp ok
        cases done
        rcases List.mem_append.mp mem with fromHere | fromMore
        · obtain ⟨sameBlock, sameNumber, matched, source⟩ := mem_txLogs madeHere fromHere
          rw [sameNumber]
          exact ⟨List.mem_cons_self, matched, block, results, found, withResults, sameBlock,
            source⟩
        · obtain ⟨later, matched, rest'⟩ := mem_heightLogs madeMore fromMore
          exact ⟨List.mem_cons_of_mem _ later, matched, rest'⟩

/-- **What `eth_getLogs` returns.** Every log is from a block of the range, matches the topic
filter, and comes from a signed transaction of that block whose sender, recipient or emitters
meet the address filter. Nothing here speaks of the log's own address. -/
theorem mem_getLogs {filter : Filter} {fromHeight toHeight : Nat} {logs : List Log} {log : Log}
    (ok : getLogs chain filter fromHeight toHeight = .ok logs) (mem : log ∈ logs) :
    fromHeight ≤ log.blockNumber ∧ log.blockNumber ≤ toHeight ∧
      matchesTopics filter.topics log = true ∧
      ∃ block results, chain log.blockNumber = some block ∧ block.txsResults = some results ∧
        log.blockHash = block.hash ∧
        ∃ entry ∈ results.zipIdx.zip block.txs, ∃ fromAddr toAddr,
          entry.2.message = .signed fromAddr toAddr ∧
          passesAddresses (filter.addresses.map EthAddress.toAddress) fromAddr toAddr
            (collectEmitters entry.1.1) = true ∧
          log.transactionIndex = entry.1.2 := by
  obtain ⟨inRange, matched, block, results, found, withResults, sameBlock, entry, listed, keep,
    sameIndex, -⟩ := mem_heightLogs ok mem
  obtain ⟨low, high⟩ := List.mem_range'_1.mp inRange
  obtain ⟨fromAddr, toAddr, signed, passes⟩ := kept_iff.mp keep
  refine ⟨low, by omega, matched, block, results, found, withResults, sameBlock, entry, listed,
    fromAddr, toAddr, signed, passes, sameIndex⟩

/-- A block with two signed transactions from one f410 account: the first emits no actor event,
the second one event, emitted by actor 100. Filtered on the sender, `get_logs` returns actor
100's log, whose address is not in the filter, numbered 1 although it is the block's first log:
the first transaction's `message` event moved the offset. -/
theorem getLogs_keeps_unfiltered_emitter :
    getLogs
        (fun height => if height = 1 then
          some ⟨5,
            [⟨.signed (EthAddress.toAddress ⟨List.replicate 20 1, by simp⟩) (Address.newId 7), 8⟩,
              ⟨.signed (EthAddress.toAddress ⟨List.replicate 20 1, by simp⟩) (Address.newId 7), 9⟩],
            some [[⟨"message", [.other, .other]⟩],
              [⟨"event", [.emitterId (some 100)]⟩, ⟨"message", [.other, .other]⟩]]⟩
          else none)
        ⟨[⟨List.replicate 20 1, by simp⟩], fun _ => none⟩ 1 1 =
      .ok [⟨ethAddressFromId 100, [], [], 5, 1, 9, 1, 1, 0⟩] ∧
    ethAddressFromId 100 ∉ [(⟨List.replicate 20 1, by simp⟩ : EthAddress)] := by
  constructor
  · rfl
  · decide

end Heights

end Ipc.EthApi
