/-
Broadcasts, `CRoseServer::SendPacket` in `rosecommon/src/croseserver.cpp`.

`SendPacket` walks the client list and calls `client->send(_buffer)` for the clients its
send type selects; `CRoseSocket::send` calls `getPacked` on the packet object it was
handed, so the object goes through as many calls as there are recipients. What the
recipients get is therefore the sequence of results of `getPacked`
(`sendPacket_eq_nthPacked`).
-/
import OsIrose.Packet

set_option autoImplicit false

namespace OsIrose.Server

open ByteMem Network Packet

/-- `enum class eSendType`. -/
inductive eSendType
  | EVERYONE | EVERYONE_BUT_ME | EVERYONE_BUT_ME_ON_MAP | NEARBY | NEARBY_BUT_ME
  deriving DecidableEq, Repr

/-- What `SendPacket` asks of a client: which object it is, whether its entity is on the
map, and the virtual `is_nearby(sender)`. -/
structure Client where
  address : ℕ
  isOnMap : Bool
  is_nearby : ℕ → Bool

/-- Whether `SendPacket` selects a client. -/
def selects (sender : ℕ) : eSendType → Client → Bool
  | .EVERYONE, _ => true
  | .EVERYONE_BUT_ME, c => c.address != sender
  | .EVERYONE_BUT_ME_ON_MAP, c => c.address != sender && c.isOnMap
  | .NEARBY, c => c.isOnMap && c.is_nearby sender
  | .NEARBY_BUT_ME, c => c.isOnMap && c.address != sender && c.is_nearby sender

/-- `CRoseServer::SendPacket`: what each recipient is handed, in the order of the client
list, and the packet object afterwards. -/
def SendPacket (fs : PackFields) (sender : ℕ) (type : eSendType) :
    List Client → CRosePacket → List (Client × List Byte) × CRosePacket
  | [], p => ([], p)
  | c :: cs, p =>
      if selects sender type c then
        -- `client->send(_buffer)` packs the object again
        let sent := getPacked fs p
        let rest := SendPacket fs sender type cs sent.2
        ((c, sent.1) :: rest.1, rest.2)
      else SendPacket fs sender type cs p

section

variable (fs : PackFields) (sender : ℕ) (type : eSendType)

/-- The recipients of a broadcast. -/
def recipients (clients : List Client) : List Client := clients.filter (selects sender type)

/-- **Every recipient gets the next call of `getPacked`.** -/
theorem sendPacket_eq_nthPacked (clients : List Client) (p : CRosePacket) :
    (SendPacket fs sender type clients p).1.map Prod.fst = recipients sender type clients ∧
      (SendPacket fs sender type clients p).1.map Prod.snd
        = (List.range (recipients sender type clients).length).map
            (fun i => nthPacked fs i p) := by
  unfold recipients
  induction clients generalizing p with
  | nil => exact ⟨rfl, rfl⟩
  | cons c cs ih =>
      rw [SendPacket]
      by_cases hc : selects sender type c = true
      · obtain ⟨hfst, hsnd⟩ := ih (getPacked fs p).2
        rw [if_pos hc, List.filter_cons_of_pos hc]
        constructor
        · rw [List.map_cons, hfst]
        · rw [List.map_cons, hsnd, List.length_cons, List.range_succ_eq_map, List.map_cons,
            List.map_map]
          rfl
      · rw [if_neg hc, List.filter_cons_of_neg hc]
        exact ih p

/-- **Broadcasts and repeated calls.** All calls of `getPacked` on a packet return what
the first one returns if and only if no value of its `pack()` fits behind the first
pack; and `SendPacket` hands every recipient the result of the first call if and only if
that is so or there is at most one recipient. -/
theorem sendPacket_same_iff (clients : List Client) (p : CRosePacket) :
    ((∀ n, nthPacked fs n p = (getPacked fs p).1) ↔ NoneFits fs p) ∧
    ((∀ s ∈ (SendPacket fs sender type clients p).1, s.2 = (getPacked fs p).1) ↔
      (recipients sender type clients).length ≤ 1 ∨ NoneFits fs p) := by
  refine ⟨nthPacked_eq_iff, ?_⟩
  obtain ⟨-, hsent⟩ := sendPacket_eq_nthPacked fs sender type clients p
  set k := (recipients sender type clients).length
  have hall : (∀ s ∈ (SendPacket fs sender type clients p).1, s.2 = (getPacked fs p).1) ↔
      ∀ i, i < k → nthPacked fs i p = nthPacked fs 0 p := by
    have hmap : (∀ s ∈ (SendPacket fs sender type clients p).1, s.2 = (getPacked fs p).1) ↔
        ∀ b ∈ (SendPacket fs sender type clients p).1.map Prod.snd, b = (getPacked fs p).1 := by
      rw [List.forall_mem_map]
    rw [hmap, hsent, List.forall_mem_map]
    constructor
    · intro h i hi
      exact h i (List.mem_range.mpr hi)
    · intro h i hi
      exact h i (List.mem_range.mp hi)
  rw [hall]
  constructor
  · intro h
    by_cases hk : k ≤ 1
    · left
      exact hk
    · right
      by_contra hfits
      exact nthPacked_one_ne hfits (h 1 (by omega))
  · rintro (hk | hnone) i hi
    · have hi0 : i = 0 := by omega
      rw [hi0]
    · exact nthPacked_eq_of_noneFits hnone i

end

/-- A packet with one `uint8_t` field, sent to two clients: the second one gets the field
twice. -/
theorem not_sendPacket_same_sample :
    ¬ ∀ (fs : PackFields) (sender : ℕ) (type : eSendType) (clients : List Client)
        (p : CRosePacket), ∀ s ∈ (SendPacket fs sender type clients p).1,
          s.2 = (getPacked fs p).1 := by
  intro h
  let fs : PackFields := ⟨[[7]], by decide⟩
  let client (a : ℕ) : Client := ⟨a, true, fun _ => true⟩
  let p := ofType (fun _ => 0) 0x701 0
  have hsent := h fs 0 .EVERYONE [client 1, client 2] p (client 2, nthPacked fs 1 p)
    (List.mem_cons_of_mem _ List.mem_cons_self)
  have hfits : ¬ NoneFits fs p := by decide
  exact nthPacked_one_ne hfits hsent

end OsIrose.Server
