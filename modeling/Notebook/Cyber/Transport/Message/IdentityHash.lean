import Notebook.Cyber.Transport.Message.Carriers
import Notebook.Cyber.Transport.Message.PeerListenerHandler

/-!
# The hash of an identity

An `Identity` (`transport/common/identity.cc`) keeps the hash of its bytes in a field. `Update`
computes it after a uuid is generated and in `set_data`, but the constructor without a uuid leaves
it `0`. `operator==` compares the bytes only. `ListenerHandler::Run`
(`transport/message/listener_handler.h`) takes the hash of the sender id of a message to find the
signal of a peer.

So an identity that was constructed without a uuid, and one whose data was set to eight zero bytes,
are equal and have different hashes, unless the hash of eight zero bytes is `0`.

The hash function, which is `std::hash`, is a parameter.
-/

open ByteMemory Container

namespace Cyber

/-- An `Identity` with its `hash_value_`. -/
structure HashedIdentity where
  id : Identity
  hashValue : ℕ
deriving DecidableEq, Repr

namespace HashedIdentity

/-- `Identity(false)` -/
def zero : HashedIdentity := ⟨.zero, 0⟩

variable (hash : List UInt8 → ℕ)

/-- `Update` -/
def update (x : HashedIdentity) : HashedIdentity := { x with hashValue := hash x.id.data }

/-- `Identity(true)`, with the first bytes of the uuid. -/
def generate (uuid : Identity) : HashedIdentity := update hash { zero with id := uuid }

/-- `set_data`, of a pointer that may be null. -/
def setData (x : HashedIdentity) : Option Identity → HashedIdentity
  | none => x
  | some data => update hash { x with id := data }

/-- `operator==` -/
def eq (x y : HashedIdentity) : Bool := x.id.data = y.id.data

end HashedIdentity

/-- A `MessageInfo` with the hashes of its identities. -/
structure HashedInfo where
  senderId : HashedIdentity := .zero
  channelId : ℕ := 0
  seqNum : UInt64 := 0
  spareId : HashedIdentity := .zero
deriving DecidableEq, Repr

namespace HashedInfo

/-- The `MessageInfo` without the hashes. -/
def erase (info : HashedInfo) : MessageInfo where
  senderId := info.senderId.id
  channelId := info.channelId
  seqNum := info.seqNum
  spareId := info.spareId.id

/-- `SerializeTo` -/
def serializeTo (info : HashedInfo) : List UInt8 := info.erase.serializeToString

/-- `DeserializeFrom` -/
def deserialize (hash : List UInt8 → ℕ) (info : HashedInfo) (src : List UInt8) :
    Bool × HashedInfo :=
  if src.length ≠ MessageInfo.kSize then (false, info)
  else
    (true, { info with
      senderId := info.senderId.setData hash (some (.setData (bytesAt src) 0))
      seqNum := .ofNat (ofBytes (ByteMemory.read (bytesAt src) idSize 8))
      spareId := info.spareId.setData hash (some (.setData (bytesAt src) (idSize + 8))) })

variable (hash : List UInt8 → ℕ)

/-- The identities after a round trip have the bytes that they had, and the hashes of these. -/
theorem deserialize_serializeTo (info obj : HashedInfo) :
    (obj.deserialize hash info.serializeTo).2.senderId = info.senderId.update hash ∧
      (obj.deserialize hash info.serializeTo).2.spareId = info.spareId.update hash := by
  have hlen : ¬info.serializeTo.length ≠ MessageInfo.kSize :=
    not_not.mpr info.erase.length_serializeToString
  have hinfo : MessageInfo.deserialize {} info.serializeTo = _ :=
    info.erase.deserialize_serializeToString {}
  rw [MessageInfo.deserialize, if_neg hlen] at hinfo
  obtain ⟨hsender, -, -, hspare⟩ := MessageInfo.mk.inj (Prod.mk.inj hinfo).2
  rw [deserialize, if_neg hlen]
  exact ⟨congrArg (fun id => HashedIdentity.mk id (hash id.data)) hsender,
    congrArg (fun id => HashedIdentity.mk id (hash id.data)) hspare⟩

end HashedInfo

namespace HashedIdentity

variable {hash : List UInt8 → ℕ}

/-- The identities that a program can get by the constructors, copies, assignments, `set_data` and
the round trip of a `MessageInfo`. -/
inductive Made (hash : List UInt8 → ℕ) : HashedIdentity → Prop
  | zero : Made hash zero
  | generate (uuid : Identity) : Made hash (generate hash uuid)
  | copy {x : HashedIdentity} (h : Made hash x) : Made hash ⟨x.id, x.hashValue⟩
  | setData {x : HashedIdentity} (h : Made hash x) (data : Option Identity) :
      Made hash (x.setData hash data)
  | senderId {info : HashedInfo} (h : Made hash info.senderId) (obj : HashedInfo) :
      Made hash (obj.deserialize hash info.serializeTo).2.senderId
  | spareId {info : HashedInfo} (h : Made hash info.spareId) (obj : HashedInfo) :
      Made hash (obj.deserialize hash info.serializeTo).2.spareId

/-- **The hash of an identity** is that of its bytes, or the identity was never given any. -/
theorem Made.hashValue_eq {x : HashedIdentity} (h : Made hash x) :
    x.hashValue = hash x.id.data ∨ x = .zero := by
  induction h with
  | zero => exact .inr rfl
  | generate uuid => exact .inl rfl
  | copy h ih => exact ih
  | setData h data ih =>
    cases data with
    | none => exact ih
    | some data => exact .inl rfl
  | senderId h obj ih =>
    rw [(HashedInfo.deserialize_serializeTo hash _ obj).1]
    exact .inl rfl
  | spareId h obj ih =>
    rw [(HashedInfo.deserialize_serializeTo hash _ obj).2]
    exact .inl rfl

variable {x y : HashedIdentity}

theorem eq_iff : x.eq y = true ↔ x.id = y.id := by
  rw [eq, decide_eq_true_eq]
  constructor
  · intro h
    obtain ⟨⟨data, hdata⟩, hx⟩ := x
    obtain ⟨⟨data', hdata'⟩, hy⟩ := y
    cases h
    rfl
  · exact congrArg Identity.data

/-- Messages from `x` select the signal of the peer `y` in `Run`. -/
def SelectsSignalOf (x y : HashedIdentity) : Prop :=
  ∀ h : PeerListenerHandler, (h.run x.hashValue).1 =
    (h.board none).signal.call ++ (h.board (some y.hashValue)).signal.call

theorem selectsSignalOf_of_eq (h : x.hashValue = y.hashValue) : x.SelectsSignalOf y := by
  intro handler
  rw [h, PeerListenerHandler.run_fst]

/-- Equal identities have the same hash if they have other bytes than zeros. -/
theorem Made.hashValue_eq_of_eq (hx : Made hash x) (hy : Made hash y)
    (heq : x.id = y.id) (hzero : x.id ≠ .zero ∨ hash (Identity.zero).data = 0) :
    x.hashValue = y.hashValue := by
  -- the hash that was not computed is the right one if the hash of zeros is zero
  have hright : ∀ z, Made hash z → z.id = x.id → z.hashValue = hash x.id.data := by
    intro z hz hid
    rcases hz.hashValue_eq with hvalue | rfl
    · rw [hvalue, hid]
    · rcases hzero with hne | hhash
      · exact absurd hid.symm hne
      · rw [← hid]
        exact hhash.symm
  rw [hright x hx rfl, hright y hy heq.symm]

/-- **Equal identities.** Those with other bytes than zeros have the same hash, and a message whose
sender id is equal to the id of a peer selects the signal of this peer. For all identities this
holds exactly if the hash of eight zero bytes is `0`. -/
theorem equal_route_iff (hash : List UInt8 → ℕ) :
    (∀ x y, Made hash x → Made hash y → x.eq y = true → x.id ≠ .zero →
      x.hashValue = y.hashValue ∧ x.SelectsSignalOf y) ∧
    ((∀ x y, Made hash x → Made hash y → x.eq y = true →
      x.hashValue = y.hashValue ∧ x.SelectsSignalOf y) ↔ hash (List.replicate 8 0) = 0) := by
  refine ⟨fun x y hx hy heq hne => ?_, fun h => ?_, fun hhash x y hx hy heq => ?_⟩
  · have hvalue := hx.hashValue_eq_of_eq hy (eq_iff.mp heq) (.inl hne)
    exact ⟨hvalue, selectsSignalOf_of_eq hvalue⟩
  · -- a default identity, and one that was given zeros
    have hset : Made hash (HashedIdentity.zero.setData hash (some .zero)) := .setData .zero _
    exact (h _ _ hset .zero rfl).1
  · have hvalue := hx.hashValue_eq_of_eq hy (eq_iff.mp heq) (.inr hhash)
    exact ⟨hvalue, selectsSignalOf_of_eq hvalue⟩

/-- The sender id of a default `MessageInfo` and the one after a round trip are equal, but their
hashes are `0` and the hash of eight zero bytes, which is the large number below in a common
implementation. A listener for the peer with the first hash is not called for the second. -/
theorem default_sender_differs :
    let hash : List UInt8 → ℕ := fun _ => 17606749225356372073
    let x : HashedIdentity := .zero
    let y := (HashedInfo.deserialize hash {} (HashedInfo.serializeTo {})).2.senderId
    let handler := PeerListenerHandler.empty.connectPeer 1 x.hashValue 5
    Made hash x ∧ Made hash y ∧ y.eq x = true ∧ x.hashValue = 0 ∧
      y.hashValue = 17606749225356372073 ∧ (handler.run x.hashValue).1 = [5] ∧
      (handler.run y.hashValue).1 = [] := by
  have hsender : Made (fun _ => 17606749225356372073) (HashedInfo.senderId {}) := .zero
  exact ⟨.zero, .senderId hsender {}, by decide, rfl, rfl, by decide, by decide⟩

end HashedIdentity

end Cyber
