import Notebook.Container.Decimal
import Notebook.Container.Terminator
import Notebook.Cyber.ServiceDiscovery.ServiceManager

/-!
# The topology manager

`TopologyManager` (`service_discovery/topology_manager.cc`) hears from the discovery protocol which
participants appear and disappear. A participant is announced with a name, its host and its process
id with a `+` between them (`CreateParticipant`). Only its guid is known when it disappears, so the
names are kept by guid. `Convert` turns each event into a message about the process, for which it
takes the name apart again (`ParseParticipantName`), and when a process has left, the managers
remove what belongs to it.

The name is taken apart at its first `+`. If the host has a `+` in its name, the rest of the host is
read as a process id: that of another process, or no number at all.
-/

open Container List Option

namespace Cyber

/-! ### Names of participants -/

/-- `std::to_string` of an `int` -/
def intToChars (n : ℤ) : List Char :=
  if n < 0 then '-' :: Nat.toDigits 10 n.natAbs else Nat.toDigits 10 n.natAbs

/-- The name with which `CreateParticipant` announces a process. -/
def participantName (hostName : String) (processId : ℤ) : String :=
  String.ofList (hostName.toList ++ '+' :: intToChars processId)

/-- `ParseParticipantName` -/
def parseParticipantName (name : String) : Option (String × ℤ) :=
  -- `find('+')` is the position of the first one
  if '+' ∈ name.toList then
    (stoi ((name.toList.dropWhile (· ≠ '+')).drop 1)).map fun processId =>
      (String.ofList (name.toList.takeWhile (· ≠ '+')), processId)
  else none

theorem stoi_intToChars {n : ℤ} (h0 : 0 ≤ n) (hn : n < 2 ^ 31) : stoi (intToChars n) = some n := by
  obtain ⟨k, rfl⟩ := Int.eq_ofNat_of_zero_le h0
  rw [intToChars, if_neg (by omega), Int.natAbs_natCast, stoi_toDigits (by omega)]

variable {processId : ℤ}

/-- **A name is read back exactly if the host has no `+` in its name.** -/
theorem parseParticipantName_participantName_iff {hostName : String} (h0 : 0 ≤ processId)
    (hlt : processId < 2 ^ 31) :
    parseParticipantName (participantName hostName processId) = some (hostName, processId) ↔
      '+' ∉ hostName.toList := by
  have hmem : '+' ∈ hostName.toList ++ '+' :: intToChars processId := by simp
  rw [parseParticipantName, participantName, String.toList_ofList, if_pos hmem,
    takeWhile_ne_append_cons]
  constructor
  · intro h
    obtain ⟨n, -, heq⟩ := map_eq_some_iff.mp h
    have hhost := congrArg String.toList (Prod.ext_iff.mp heq).1
    rw [String.toList_ofList] at hhost
    exact takeWhile_ne_eq_self_iff.mp hhost
  · intro h
    rw [takeWhile_ne_eq_self_iff.mpr h, dropWhile_ne_append_cons _ h, drop_one,
      tail_cons, stoi_intToChars h0 hlt, map_some, String.ofList_toList]

/-! ### The manager -/

/-- `DISCOVERY_STATUS` of a participant -/
inductive DiscoveryStatus
  | discovered
  | changedQos
  | removed
  | dropped
deriving DecidableEq, Repr

/-- The fields of `ParticipantDiscoveryInfo` that `Convert` reads. -/
structure PartInfo (G : Type*) where
  guid : G
  status : DiscoveryStatus
  /-- `m_RTPSParticipantName` -/
  name : String
deriving DecidableEq, Repr

/-- `TopologyManager`, with guids in `G`. -/
structure TopologyManager (G : Type*) where
  init : Bool
  nodeManager : NodeManager
  channelManager : ChannelManager
  serviceManager : ServiceManager
  participantNames : AList fun _ : G => String := ∅

/-- The message of `Convert` about a process. -/
def participantMsg (opt : OperateType) (hostName : String) (processId : ℤ) (timestamp : ℕ) :
    ChangeMsg where
  timestamp := timestamp
  operateType := opt
  roleType := .participant
  roleAttr := { hostName := some hostName, processId := some processId }

namespace TopologyManager

variable {G : Type*} [DecidableEq G]

/-- The first half of `Convert`: the names that are known after an event, and the name and the kind
of change for the message. -/
def noteParticipant (names : AList fun _ : G => String) (info : PartInfo G) :
    (AList fun _ : G => String) × String × OperateType :=
  match info.status with
  | .discovered => (names.insert info.guid info.name, info.name, .join)
  | .removed | .dropped =>
    match names.lookup info.guid with
    | some name => (names.erase info.guid, name, .leave)
    | none => (names, "", .leave)
  | .changedQos => (names, "", .join)

/-- `Convert` -/
def convert (m : TopologyManager G) (info : PartInfo G) (timestamp : ℕ) :
    TopologyManager G × Option ChangeMsg :=
  let r := noteParticipant m.participantNames info
  ({ m with participantNames := r.1 },
    (parseParticipantName r.2.1).map fun p => participantMsg r.2.2 p.1 p.2 timestamp)

/-- The calls of `OnTopoModuleLeave` of the three managers. -/
def onTopoModuleLeave (m : TopologyManager G) (hostName : String) (processId : ℤ)
    (timestamp : ℕ) : TopologyManager G :=
  { m with
    nodeManager := m.nodeManager.onTopoModuleLeave hostName processId
    channelManager := m.channelManager.step (.onTopoModuleLeave hostName processId timestamp)
    serviceManager := m.serviceManager.onTopoModuleLeave hostName processId }

/-- `OnParticipantChange`, with the message that `change_signal_` is called with. -/
def onParticipantChange (m : TopologyManager G) (info : PartInfo G) (timestamp : ℕ) :
    TopologyManager G × Option ChangeMsg :=
  let r := m.convert info timestamp
  match r.2 with
  | none => (r.1, none)
  | some msg =>
    if !m.init then (r.1, none)
    else if msg.operateType = .leave then
      (r.1.onTopoModuleLeave msg.roleAttr.getHostName msg.roleAttr.getProcessId timestamp,
        some msg)
    else (r.1, some msg)

/-- The manager of a process after a successful `Init`. -/
def start (hostName : String) (processId : ℤ) : TopologyManager G where
  init := true
  nodeManager := { hostName, processId, isDiscoveryStarted := true }
  channelManager := .init hostName processId true
  serviceManager := { hostName, processId, isDiscoveryStarted := true }

/-- A sequence of events, with the times at which they are heard of. -/
def run (m : TopologyManager G) (events : List (PartInfo G × ℕ)) : TopologyManager G :=
  events.foldl (fun m e => (m.onParticipantChange e.1 e.2).1) m

/-! ### The name of one participant -/

variable {m : TopologyManager G} {info : PartInfo G} {g : G} {name : String} {timestamp : ℕ}

theorem participantNames_onParticipantChange :
    (m.onParticipantChange info timestamp).1.participantNames =
      (noteParticipant m.participantNames info).1 := by
  unfold onParticipantChange
  dsimp only
  split
  · rfl
  · split_ifs <;> rfl

/-- An event that leaves the name of `g` known as `name`: one of another participant, one that
brings no name, or a repeated announcement. -/
def Keeps (g : G) (name : String) (info : PartInfo G) : Prop :=
  info.guid ≠ g ∨ info.status = .changedQos ∨ (info.status = .discovered ∧ info.name = name)

theorem lookup_noteParticipant {names : AList fun _ : G => String} (hkeep : Keeps g name info)
    (h : names.lookup g = some name) : (noteParticipant names info).1.lookup g = some name := by
  unfold noteParticipant
  rcases hkeep with hne | hqos | ⟨hdisc, hname⟩
  · cases info.status with
    | discovered => simpa only [AList.lookup_insert_ne hne.symm] using h
    | changedQos => exact h
    | removed | dropped =>
      dsimp only
      split
      · simpa only [AList.lookup_erase_ne hne.symm] using h
      · exact h
  · simpa only [hqos] using h
  · by_cases hg : g = info.guid
    · subst hg
      simp only [hdisc, AList.lookup_insert, hname]
    · simpa only [hdisc, AList.lookup_insert_ne hg] using h

/-- The name stays known along a run. The induction is on the events, from the first one. -/
theorem lookup_run {events : List (PartInfo G × ℕ)} (hkeep : ∀ e ∈ events, Keeps g name e.1)
    (h : m.participantNames.lookup g = some name) :
    (m.run events).participantNames.lookup g = some name := by
  induction events generalizing m with
  | nil => exact h
  | cons e events ih =>
    have hfirst : (m.onParticipantChange e.1 e.2).1.participantNames.lookup g = some name := by
      rw [participantNames_onParticipantChange]
      exact lookup_noteParticipant (hkeep e mem_cons_self) h
    exact ih (fun e' he' => hkeep e' (mem_cons_of_mem _ he')) hfirst

theorem convert_of_lookup (hstatus : info.status = .removed ∨ info.status = .dropped)
    (h : m.participantNames.lookup info.guid = some name) :
    (m.convert info timestamp).2 =
      (parseParticipantName name).map fun p => participantMsg .leave p.1 p.2 timestamp := by
  rcases hstatus with hs | hs <;> simp only [convert, noteParticipant, hs, h]

/-! ### Departures -/

/-- The manager after a participant was announced with the name of its process, and other events. -/
def afterAnnouncement (m : TopologyManager G) (g : G) (hostName : String) (processId : ℤ)
    (announced : ℕ) (events : List (PartInfo G × ℕ)) : TopologyManager G :=
  (m.onParticipantChange ⟨g, .discovered, participantName hostName processId⟩ announced).1.run
    events

theorem lookup_afterAnnouncement {hostName : String} {announced : ℕ}
    {events : List (PartInfo G × ℕ)}
    (hkeep : ∀ e ∈ events, Keeps g (participantName hostName processId) e.1) :
    (m.afterAnnouncement g hostName processId announced events).participantNames.lookup g =
      some (participantName hostName processId) := by
  apply lookup_run hkeep
  rw [participantNames_onParticipantChange]
  exact AList.lookup_insert _

theorem participantMsg_inj {opt : OperateType} {hostName hostName' : String}
    {processId processId' : ℤ} (h : participantMsg opt hostName processId timestamp =
      participantMsg opt hostName' processId' timestamp) :
    (hostName, processId) = (hostName', processId') := by
  have hattr := congrArg ChangeMsg.roleAttr h
  have hhost : some hostName = some hostName' := congrArg RoleAttributes.hostName hattr
  have hprocess : some processId = some processId' := congrArg RoleAttributes.processId hattr
  rw [some.inj hhost, some.inj hprocess]

/-- **Departures.** A participant is announced at any manager, with the name of its process. Then
come any events of other participants, and any of its own that are not its removal and bring no
other name. When it is removed, the message says that the process has left, exactly if the host has
no `+` in its name. -/
theorem departure_iff (m : TopologyManager G) (hostName : String)
    (hprocess : 0 ≤ processId ∧ processId < 2 ^ 31) (announced timestamp : ℕ)
    (events : List (PartInfo G × ℕ)) (info : PartInfo G)
    (hkeep : ∀ e ∈ events, Keeps info.guid (participantName hostName processId) e.1)
    (hstatus : info.status = .removed ∨ info.status = .dropped) :
    ((m.afterAnnouncement info.guid hostName processId announced events).convert info timestamp).2 =
        some (participantMsg .leave hostName processId timestamp) ↔
      '+' ∉ hostName.toList := by
  rw [convert_of_lookup hstatus (lookup_afterAnnouncement hkeep),
    ← parseParticipantName_participantName_iff hprocess.1 hprocess.2]
  constructor
  · intro h
    obtain ⟨p, hp, hmsg⟩ := map_eq_some_iff.mp h
    rw [hp, ← participantMsg_inj hmsg]
  · intro h
    rw [h, map_some]

/-- A participant on another host appears and disappears in between. -/
theorem departure_iff_of_two :
    (((start "vehicle" 1 : TopologyManager ℕ).afterAnnouncement 7 "planning" 4711 0
        [(⟨8, .discovered, participantName "control" 12⟩, 1), (⟨7, .changedQos, ""⟩, 2),
          (⟨8, .dropped, ""⟩, 3)]).convert ⟨7, .removed, ""⟩ 4).2 =
      some (participantMsg .leave "planning" 4711 4) := by
  refine (departure_iff (start "vehicle" 1) "planning" (by decide) 0 4 _
    (⟨7, .removed, ""⟩ : PartInfo ℕ) ?_ (.inl rfl)).mpr ?_
  · simp [Keeps]
  · decide

/-- A process on a host with a `+` in its name leaves. The message is about another process, whose
host has the first part of the name and whose id is the number in the second part, or there is no
message at all. -/
theorem departure_of_plus :
    (((start "vehicle" 1 : TopologyManager ℕ).afterAnnouncement 7 "a+1" 5 0 []).convert
        ⟨7, .removed, ""⟩ 1).2 = some (participantMsg .leave "a" 1 1) ∧
      (((start "vehicle" 1 : TopologyManager ℕ).afterAnnouncement 7 "a+b" 5 0 []).convert
        ⟨7, .removed, ""⟩ 1).2 = none := by
  decide

end TopologyManager

end Cyber
