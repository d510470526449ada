import RedGiant.Core.Snapshot

/-!
# `server_main`

Start-up and shut-down of the server, from `main/main.cc`; `Outcome` is what
the code outside this tree answers and `Effect` what `server_main` asks of it.
-/

namespace RedGiant

variable {DocId TermId TermWeight ExpireTime : Type}

/-! ## Configuration -/

/-- The members of the `"index"` object as `json_try_get_value` reads them,
`none` where a member is missing or mistyped. -/
structure IndexConfig where
  max_size : Option Int
  maintain_interval : Option Int
  restore_on_startup : Option Bool
  dump_on_exit : Option Bool
  snapshot_prefix : Option String
  update_thread_num : Option Nat
  update_queue_size : Option Nat

namespace IndexConfig

variable (c : IndexConfig)

def indexMaxSize : Int := c.max_size.getD 5000000
def indexMaintainInterval : Int := c.maintain_interval.getD 300
def restoreOnStartup : Bool := c.restore_on_startup.getD false
def dumpOnExit : Bool := c.dump_on_exit.getD false
def snapshotPrefix : String := c.snapshot_prefix.getD ""
def documentUpdateThreadNum : Nat := c.update_thread_num.getD 4
def documentUpdateQueueSize : Nat := c.update_queue_size.getD 2048

end IndexConfig

structure ServerConfig where
  port : Option Int
  thread_num : Option Nat
  max_request_per_thread : Option Nat

def serverPort (c : Option ServerConfig) : Int := (c.bind (·.port)).getD 19980
def serverThreadNum (c : Option ServerConfig) : Nat := (c.bind (·.thread_num)).getD 4
def maxReqPerThread (c : Option ServerConfig) : Nat :=
  (c.bind (·.max_request_per_thread)).getD 0

/-- The configuration; of `"feature_spaces"` and `"ranking"` only presence. -/
structure Config where
  feature_spaces : Bool
  index : Option IndexConfig
  ranking : Bool
  server : Option ServerConfig

/-- Whether the components outside this tree start, and what the
`DocumentIndexManager` loader reads from the snapshot files of a prefix. -/
structure Outcome (DocId TermId TermWeight ExpireTime : Type) where
  featureSpacesInitialized : Bool
  snapshot : String → List (Item TermId DocId TermWeight ExpireTime)
  modelCreated : Bool
  serverInitialized : Bool
  serverStarted : Bool

/-! ## The index `server_main` starts -/

/-- The `int` `index_max_size` passed as a `size_t`. -/
def sizeT (n : Int) : Nat := (n % 18446744073709551616).toNat

section StartIndex

variable [LinearOrder DocId] [DecidableEq TermId] [LinearOrder ExpireTime]

/-- The index `server_main` starts (main.cc, lines 179 to 195): the restored
one, or an empty one when the restore is off or throws.  Only the loading
constructor is from the spec (§4.8), and every load error is caught, where
`server_main` catches only `std::ios_base::failure`. -/
def startIndex (max_size : Nat) (restore_on_startup : Bool)
    (loader : List (Item TermId DocId TermWeight ExpireTime)) :
    BaseEventIndex DocId TermId TermWeight ExpireTime :=
  let restored :=
    if restore_on_startup then
      match BaseEventIndex.load max_size loader with
      | .ok (s, _) => some s
      | .error _ => none
    else none
  restored.getD (.empty max_size)

/-- Restored from a whole dump, the index has the dumped posting lists and
deadlines and an empty changeset; from a dump cut short, it is empty. -/
theorem startIndex_dump_or_empty (max_size : Nat)
    (s : BaseEventIndex DocId TermId TermWeight ExpireTime)
    (p : List (Item TermId DocId TermWeight ExpireTime)) (hp : p <+: s.dump) :
    let idx := startIndex max_size true p
    (p.length < s.dump.length → idx = .empty max_size) ∧
      (p = s.dump → (∀ t, idx.index.lists.lookup t = s.index.lists.lookup t) ∧
        (∀ k, idx.expire.lookup k = s.expire.lookup k) ∧ idx.changeset = [] ∧
        idx.maxSize = max_size) := by
  obtain ⟨s', h, hidx, hexp, hcs, hmax⟩ := BaseEventIndex.load_dump max_size s
  refine ⟨fun hlt => by simp [startIndex, h.error_of_prefix hp hlt], fun hp' => ?_⟩
  subst hp'
  simp only [startIndex, h.ok, if_true, Option.getD_some]
  exact ⟨hidx, hexp, hcs, hmax⟩

/-- A dump cut inside its expiration section restores nothing. -/
theorem startIndex_dump_or_empty_cut :
    let s := (BaseEventIndex.empty 4 : BaseEventIndex Nat Nat Nat Int).run
      [.update 1 1 5 10, .apply 0]
    s.dump.take 7 <+: s.dump ∧ startIndex 4 true (s.dump.take 7) = .empty 4 :=
  ⟨⟨_, List.take_append_drop 7 _⟩,
    (startIndex_dump_or_empty 4 _ _ ⟨_, List.take_append_drop 7 _⟩).1 (by decide)⟩

end StartIndex

/-! ## Effects and scope guards -/

/-- What `server_main` asks of the index, the pipeline and the server. -/
inductive Effect
  | startMaintain (apply_interval compaction_interval : Int)
  | dump ( snapshot_prefix : String)
  | stopMaintain
  | pipelineStart (thread_num queue_size : Nat)
  | pipelineStop
  | serverStart (port : Int) (thread_num max_req_per_thread : Nat)
  | serverStop
  deriving DecidableEq

/-- The effects so far, and the live `ScopeGuard`s' destructors, newest first. -/
structure Scope where
  effects : List Effect
  guards : List (List Effect)

namespace Scope

def perform (sc : Scope) (e : Effect) : Scope := { sc with effects := sc.effects ++ [e] }

def guard (sc : Scope) (g : List Effect) : Scope := { sc with guards := g :: sc.guards }

def leave (sc : Scope) : List Effect := sc.effects ++ sc.guards.flatten

end Scope

/-! ## `server_main` -/

section ServerMain

variable [LinearOrder DocId] [DecidableEq TermId] [LinearOrder ExpireTime]

/-- `feed_index_guard`: the dump if `dump_on_exit`, then `stop_maintain`. -/
def feedIndexGuard (c : IndexConfig) : List Effect :=
  (if c.dumpOnExit then [.dump c.snapshotPrefix] else []) ++ [.stopMaintain]

def indexScope (c : IndexConfig) : Scope :=
  let sc : Scope := ⟨[], []⟩
  let sc := (sc.perform (.startMaintain c.indexMaintainInterval c.indexMaintainInterval)).guard
    (feedIndexGuard c)
  (sc.perform (.pipelineStart c.documentUpdateThreadNum c.documentUpdateQueueSize)).guard
    [.pipelineStop]

/-- `server_main(config)`: what it returns, the effects, and the index it
started.  The four failures after the index `return -1` before `server_guard`. -/
def serverMain (config : Config) (w : Outcome DocId TermId TermWeight ExpireTime) :
    Int × List Effect × Option (BaseEventIndex DocId TermId TermWeight ExpireTime) :=
  if !config.feature_spaces || !w.featureSpacesInitialized then (-1, [], none) else
  match config.index with
  | none => (-1, [], none)
  | some c =>
    let index := startIndex (sizeT c.indexMaxSize) c.restoreOnStartup
      (w.snapshot c.snapshotPrefix)
    if !config.ranking || !w.modelCreated || !w.serverInitialized || !w.serverStarted then
      (-1, (indexScope c).leave, some index)
    else
      let sc := ((indexScope c).perform (.serverStart (serverPort config.server)
        (serverThreadNum config.server) (maxReqPerThread config.server))).guard [.serverStop]
      (0, sc.leave, some index)

end ServerMain

end RedGiant
