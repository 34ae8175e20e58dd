import RobomasterFirmware.Applications.MyType
import Mathlib.Data.List.FinRange
import Mathlib.Data.List.Nodup
import Mathlib.Data.List.Perm.Basic

/-!
# The CAN Receive Box

`components/drivers/can/can.c`: the receive box of a CAN device, sixteen list nodes that are linked
either into `freelist` or into `uselist`, as `rt_hw_can_isr` fills it and `_can_int_rx` empties it.
Every critical section of these functions is one definition.

No header is connected, so the header lists stay empty and `hdr` selects only between the head of
`uselist` (`-1`) and nothing. The status counters are left out.

An arriving frame carries its arrival number, which the code does not see.
-/

namespace RobomasterFirmware.Drivers

open RobomasterFirmware.Applications

/-- A received frame with its arrival number. -/
structure CanFrame where
  serial : ℕ
  msg : RtCanMsg
  deriving DecidableEq

/-- `struct rt_can_rx_fifo`, with `RT_CANMSG_BOX_SZ` nodes. -/
structure CanRxFifo where
  buffer : Fin 16 → CanFrame
  freenumbers : ℕ
  freelist : List (Fin 16)
  uselist : List (Fin 16)

namespace CanRxFifo

/-- What `rt_can_open` sets up: all nodes are free. -/
def opened : CanRxFifo where
  buffer _ := ⟨0, .zero⟩
  freenumbers := 16
  freelist := List.finRange 16
  uselist := []

/-! ## The interrupt: `RT_CAN_EVENT_RX_IND` -/

/-- The first critical section: unlink a node, from `freelist` if possible, else the oldest of
`uselist`, whose frame is thereby dropped. -/
def unlinkNode (f : CanRxFifo) : Option (Fin 16) × CanRxFifo :=
  match f.freelist, f.uselist with
  | n :: free, _ => (some n, { f with freelist := free, freenumbers := f.freenumbers - 1 })
  | [], n :: use => (some n, { f with uselist := use })
  | [], [] => (none, f)

/-- The copy of the frame and the second critical section. -/
def linkNode (f : CanRxFifo) (n : Fin 16) (frame : CanFrame) : CanRxFifo :=
  { f with buffer := Function.update f.buffer n frame, uselist := f.uselist ++ [n] }

/-- The part of the interrupt before the callback. -/
def rxInd (f : CanRxFifo) (frame : CanFrame) : CanRxFifo :=
  match f.unlinkNode with
  | (some n, f) => f.linkNode n frame
  | (none, f) => f

/-! ## The reader: `_can_int_rx` -/

/-- The first critical section: unlink the node that `data->hdr` selects. -/
def takeNode (f : CanRxFifo) (hdr : Int8) : Option (Fin 16) × CanRxFifo :=
  if hdr = -1 then
    match f.uselist with
    | n :: use => (some n, { f with uselist := use })
    | [] => (none, f)
  else (none, f)

/-- The second critical section: the node becomes free. -/
def freeNode (f : CanRxFifo) (n : Fin 16) : CanRxFifo :=
  { f with freelist := f.freelist ++ [n], freenumbers := f.freenumbers + 1 }

/-! ## Nodes are never lost -/

/-- Every node is in exactly one of the two lists or held by the reader, and the free ones are
counted. -/
structure Accounted (f : CanRxFifo) (held : List (Fin 16)) : Prop where
  nodes : (f.freelist ++ (held ++ f.uselist)).Perm (List.finRange 16)
  freenumbers : f.freenumbers = f.freelist.length

theorem accounted_opened : opened.Accounted [] := ⟨.refl _, rfl⟩

variable {f g : CanRxFifo} {held : List (Fin 16)} {n : Fin 16}

theorem Accounted.length (h : f.Accounted held) :
    f.freelist.length + held.length + f.uselist.length = 16 := by
  have hlen := h.nodes.length_eq
  simp only [List.length_append, List.length_finRange] at hlen
  omega

/-- A free node holds none of the waiting frames. -/
theorem Accounted.not_mem_uselist (h : f.Accounted held) (hn : n ∈ f.freelist) :
    n ∉ held ∧ n ∉ f.uselist := by
  have hnodup := h.nodes.nodup_iff.mpr (List.nodup_finRange 16)
  have hdisjoint := List.disjoint_of_nodup_append hnodup hn
  exact ⟨fun hmem => hdisjoint (List.mem_append_left _ hmem),
    fun hmem => hdisjoint (List.mem_append_right _ hmem)⟩

/-- Moving nodes between the two lists and the reader keeps them accounted for. -/
theorem Accounted.of_count {held' : List (Fin 16)} (h : f.Accounted held)
    (hcount : ∀ a, g.freelist.count a + (held'.count a + g.uselist.count a) =
      f.freelist.count a + (held.count a + f.uselist.count a))
    (hfree : g.freenumbers = g.freelist.length) : g.Accounted held' where
  nodes := by
    refine List.Perm.trans ?_ h.nodes
    rw [List.perm_iff_count]
    intro a
    simpa only [List.count_append] using hcount a
  freenumbers := hfree

theorem Accounted.linkNode (h : f.Accounted (n :: held)) (frame : CanFrame) :
    (f.linkNode n frame).Accounted held := by
  refine h.of_count (fun a => ?_) h.freenumbers
  simp only [CanRxFifo.linkNode, List.count_append, List.count_cons, List.count_nil]
  omega

theorem Accounted.freeNode (h : f.Accounted (n :: held)) : (f.freeNode n).Accounted held := by
  refine h.of_count (fun a => ?_) ?_
  · simp only [CanRxFifo.freeNode, List.count_append, List.count_cons, List.count_nil]
    omega
  · simp only [CanRxFifo.freeNode, List.length_append, List.length_singleton, h.freenumbers]

/-- The head of `uselist` moves from the box to its holder. -/
theorem Accounted.unlink_use {use : List (Fin 16)} (h : f.Accounted held)
    (huse : f.uselist = n :: use) : Accounted { f with uselist := use } (n :: held) := by
  refine h.of_count (fun a => ?_) h.freenumbers
  simp only [huse, List.count_cons]
  omega

/-- The head of `freelist` moves from the box to its holder. -/
theorem Accounted.unlink_free {free : List (Fin 16)} (h : f.Accounted held)
    (hfree : f.freelist = n :: free) :
    Accounted { f with freelist := free, freenumbers := f.freenumbers - 1 } (n :: held) := by
  refine h.of_count (fun a => ?_) ?_
  · simp only [hfree, List.count_cons]
    omega
  · simp only [h.freenumbers, hfree, List.length_cons, Nat.add_sub_cancel]

/-- Storing a frame keeps all nodes accounted for, also when it drops the oldest. -/
theorem Accounted.rxInd (h : f.Accounted held) (frame : CanFrame) :
    (f.rxInd frame).Accounted held := by
  unfold CanRxFifo.rxInd unlinkNode
  cases hfree : f.freelist with
  | cons n free => exact (h.unlink_free hfree).linkNode frame
  | nil =>
    cases huse : f.uselist with
    -- the box is full: the oldest node is reused
    | cons n use =>
      have hstep := (h.unlink_use huse).linkNode frame
      rwa [hfree] at hstep
    | nil => exact h

/-- A frame that finds a free node is appended; the frames already waiting stay as they are. -/
theorem rxInd_of_freelist {free : List (Fin 16)} (hfree : f.freelist = n :: free)
    (frame : CanFrame) :
    f.rxInd frame =
      { buffer := Function.update f.buffer n frame
        freenumbers := f.freenumbers - 1
        freelist := free
        uselist := f.uselist ++ [n] } := by
  simp only [rxInd, unlinkNode, linkNode, hfree]

/-! ## What waits -/

/-- The arrival numbers of the waiting frames, oldest first. -/
def serials (f : CanRxFifo) : List ℕ := f.uselist.map fun n => (f.buffer n).serial

theorem length_uselist_rxInd (hfree : f.freelist ≠ []) (frame : CanFrame) :
    (f.rxInd frame).uselist.length = f.uselist.length + 1 := by
  obtain ⟨n, free, hn⟩ := List.exists_cons_of_ne_nil hfree
  rw [rxInd_of_freelist hn, List.length_append, List.length_singleton]

/-- With a free node a frame joins the end of the queue. -/
theorem Accounted.serials_rxInd (h : f.Accounted held) (hfree : f.freelist ≠ [])
    (frame : CanFrame) : (f.rxInd frame).serials = f.serials ++ [frame.serial] := by
  obtain ⟨n, free, hn⟩ := List.exists_cons_of_ne_nil hfree
  have huse := (h.not_mem_uselist (hn ▸ List.mem_cons_self)).2
  have hsame : f.uselist.map (fun m => (Function.update f.buffer n frame m).serial) =
      f.serials := by
    apply List.map_congr_left
    intro m hm
    -- the frame is stored in a node that none of the waiting ones uses
    have hmn : m ≠ n := fun heq => huse (heq ▸ hm)
    rw [Function.update_of_ne hmn]
  rw [rxInd_of_freelist hn, serials, List.map_append, hsame, List.map_singleton]
  simp only [Function.update_self]

/-- The node that the reader holds is not overwritten. -/
theorem Accounted.buffer_rxInd (h : f.Accounted held) (hfree : f.freelist ≠ [])
    (frame : CanFrame) {m : Fin 16} (hm : m ∈ held) : (f.rxInd frame).buffer m = f.buffer m := by
  obtain ⟨n, free, hn⟩ := List.exists_cons_of_ne_nil hfree
  have hheld := (h.not_mem_uselist (hn ▸ List.mem_cons_self)).1
  have hmn : m ≠ n := fun heq => hheld (heq ▸ hm)
  rw [rxInd_of_freelist hn]
  exact Function.update_of_ne hmn _ _

end CanRxFifo

end RobomasterFirmware.Drivers
