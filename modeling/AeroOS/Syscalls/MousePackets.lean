import AeroOS.Syscalls.Input

/-!
# Mouse packets

A packet carries each delta as nine bits: the sign is in the status byte and the
other eight bits are a byte of their own.  `complete_packet` takes the sign from
bit 7 of that byte.

* `feed_packet`: the three bytes of a packet complete it.
* `completePacket_eq_iff`: the packets and the states for which this gives the
  nine-bit delta.
* `packets_iff`: sequences of packets.
-/

namespace AeroOS.Syscalls

open Fs Run

/-- The bytes of a packet. -/
structure Packet where
  status : UInt8
  x : UInt8
  y : UInt8

/-- The nine-bit number in two's complement with this sign bit and these low bits. -/
def nineBit (sign : Bool) (low : UInt8) : Int := low.toNat - if sign then 256 else 0

namespace Packet

def bytes (p : Packet) : List UInt8 := [p.status, p.x, p.y]

/-- A packet that starts with a status byte, and has no overflow bit. -/
structure Plain (p : Packet) : Prop where
  sync : p.status &&& 0x08 ≠ 0
  xOverflow : p.status &&& 0x40 = 0
  yOverflow : p.status &&& 0x80 = 0

def xSign (p : Packet) : Bool := p.status &&& 0x10 ≠ 0
def ySign (p : Packet) : Bool := p.status &&& 0x20 ≠ 0

/-- The movement in the packet, up positive. -/
def dx (p : Packet) : Int := nineBit p.xSign p.x
def dy (p : Packet) : Int := -nineBit p.ySign p.y

/-- The movement and the buttons of the packet. -/
def apply (m : MouseState) (p : Packet) : MouseState where
  dx := saturatingAdd m.dx p.dx
  dy := saturatingAdd m.dy p.dy
  buttons := p.status &&& 0x07

end Packet

/-- The mouse state and the unfinished packet after some bytes. -/
def feed (w : MouseState × List UInt8) (bytes : List UInt8) : MouseState × List UInt8 :=
  bytes.foldl (fun w byte => onByte w.1 w.2 byte) w

variable {m : MouseState} {p : Packet} {ps : List Packet}

/-- The three bytes of a packet complete it. -/
theorem feed_packet (hp : p.Plain) :
    feed (m, []) p.bytes = (completePacket m p.status p.x p.y, []) := by
  have hfirst : onByte m [] p.status = (m, [p.status]) := if_neg hp.sync
  simp only [feed, Packet.bytes, List.foldl_cons, List.foldl_nil, hfirst]
  rfl

/-! ## One packet -/

/-- The bounds of an `i16`. -/
structure InRange (m : MouseState) : Prop where
  dx : -32768 ≤ m.dx ∧ m.dx ≤ 32767
  dy : -32768 ≤ m.dy ∧ m.dy ≤ 32767

theorem saturatingAdd_range (a b : Int) :
    -32768 ≤ saturatingAdd a b ∧ saturatingAdd a b ≤ 32767 := by
  unfold saturatingAdd
  omega

theorem Packet.apply_inRange (m : MouseState) (p : Packet) : InRange (p.apply m) :=
  ⟨saturatingAdd_range _ _, saturatingAdd_range _ _⟩

/-- An `i8` is the nine-bit number whose sign is bit 7. -/
theorem toInt_toInt8 (b : UInt8) : b.toInt8.toInt = nineBit (128 ≤ b.toNat) b := by
  have h : b.toInt8.toInt = b.toBitVec.toInt := rfl
  rw [h, BitVec.toInt_eq_toNat_cond]
  unfold nineBit
  have hlt := b.toNat_lt
  simp only [UInt8.toNat_toBitVec, decide_eq_true_eq]
  split <;> split <;> omega

/-- The sign bit agrees with bit 7 of the low bits, or the sum is at the bound to
which a delta of -256 and of 0 both lead. -/
def SignFits (sign : Bool) (low : UInt8) (atBound : Prop) : Prop :=
  (sign = true ↔ 128 ≤ low.toNat) ∨ sign = true ∧ low.toNat = 0 ∧ atBound

theorem saturatingAdd_eq_iff {sign : Bool} {low : UInt8} {d : Int}
    (hd : -32768 ≤ d ∧ d ≤ 32767) :
    saturatingAdd d low.toInt8.toInt = saturatingAdd d (nineBit sign low) ↔
      SignFits sign low (d = -32768) := by
  rw [toInt_toInt8]
  have hlt := low.toNat_lt
  unfold saturatingAdd nineBit SignFits
  generalize low.toNat = n at *
  by_cases h : 128 ≤ n <;> cases sign <;>
    simp only [h, decide_true, decide_false, if_true, Bool.false_eq_true, if_false, false_and,
      true_and, iff_true, iff_false, not_true_eq_false, or_false, true_or, false_or] <;> omega

theorem saturatingAdd_neg_eq_iff {sign : Bool} {low : UInt8} {d : Int}
    (hd : -32768 ≤ d ∧ d ≤ 32767) :
    saturatingAdd d (-low.toInt8.toInt) = saturatingAdd d (-nineBit sign low) ↔
      SignFits sign low (d = 32767) := by
  rw [toInt_toInt8]
  have hlt := low.toNat_lt
  unfold saturatingAdd nineBit SignFits
  generalize low.toNat = n at *
  by_cases h : 128 ≤ n <;> cases sign <;>
    simp only [h, decide_true, decide_false, if_true, Bool.false_eq_true, if_false, false_and,
      true_and, iff_true, iff_false, not_true_eq_false, or_false, true_or, false_or] <;> omega

/-- The sign bits of the packet are where `complete_packet` looks for them. -/
structure SignsFit (m : MouseState) (p : Packet) : Prop where
  x : SignFits p.xSign p.x (m.dx = -32768)
  y : SignFits p.ySign p.y (m.dy = 32767)

/-- A packet adds its nine-bit deltas exactly when its signs fit. -/
theorem completePacket_eq_iff (hm : InRange m) (hp : p.Plain) :
    completePacket m p.status p.x p.y = p.apply m ↔ SignsFit m p := by
  have hcomplete : completePacket m p.status p.x p.y =
      ⟨saturatingAdd m.dx p.x.toInt8.toInt, saturatingAdd m.dy (-p.y.toInt8.toInt),
        p.status &&& 0x07⟩ := by
    simp only [completePacket, packetDelta, hp.xOverflow, hp.yOverflow, ne_eq, not_true_eq_false,
      if_false]
  rw [hcomplete, Packet.apply, MouseState.mk.injEq, Packet.dx, Packet.dy,
    saturatingAdd_eq_iff hm.dx, saturatingAdd_neg_eq_iff hm.dy]
  exact ⟨fun h => ⟨h.1, h.2.1⟩, fun h => ⟨h.x, h.y, rfl⟩⟩

/-! ## Sequences of packets -/

theorem feed_append (w : MouseState × List UInt8) (bs cs : List UInt8) :
    feed w (bs ++ cs) = feed (feed w bs) cs :=
  List.foldl_append

/-- Each packet of the sequence adds its movement and sets the buttons. -/
def Decodes (m : MouseState) (ps : List Packet) : Prop :=
  ∀ qs, qs <+: ps → feed (m, []) (qs.flatMap Packet.bytes) = (qs.foldl Packet.apply m, [])

theorem decodes_cons (hp : p.Plain) : Decodes m (p :: ps) ↔
    completePacket m p.status p.x p.y = p.apply m ∧ Decodes (p.apply m) ps := by
  have hfeed : ∀ qs : List Packet, feed (m, []) ((p :: qs).flatMap Packet.bytes) =
      feed (completePacket m p.status p.x p.y, []) (qs.flatMap Packet.bytes) := fun qs => by
    rw [List.flatMap_cons, feed_append, feed_packet hp]
  constructor
  · intro h
    have hone := h [p] (List.prefix_cons_inj p |>.2 List.nil_prefix)
    rw [hfeed] at hone
    have heq : completePacket m p.status p.x p.y = p.apply m := congrArg Prod.fst hone
    refine ⟨heq, fun qs hqs => ?_⟩
    rw [← heq, ← hfeed, h (p :: qs) ((List.prefix_cons_inj p).2 hqs), List.foldl_cons, heq]
  · rintro ⟨heq, h⟩ qs hqs
    cases qs with
    | nil => rfl
    | cons q qs =>
      obtain ⟨rfl, hrest⟩ := List.cons_prefix_cons.1 hqs
      rw [hfeed, heq, List.foldl_cons]
      exact h qs hrest

theorem decodes_iff (hm : InRange m) (hps : ∀ p ∈ ps, p.Plain) :
    Decodes m ps ↔ AllOk Packet.apply SignsFit m ps := by
  induction ps generalizing m with
  | nil =>
    refine ⟨fun _ => trivial, fun _ qs hqs => ?_⟩
    rw [List.prefix_nil.1 hqs]
    rfl
  | cons p ps ih =>
    rw [decodes_cons (hps p List.mem_cons_self), completePacket_eq_iff hm (hps p List.mem_cons_self),
      ih (p.apply_inRange m) fun q hq => hps q (List.mem_cons_of_mem _ hq)]
    rfl

/-- The sums of a sequence. -/
theorem foldl_apply (m : MouseState) (ps : List Packet) :
    ps.foldl Packet.apply m = ⟨ps.foldl (fun d p => saturatingAdd d p.dx) m.dx,
      ps.foldl (fun d p => saturatingAdd d p.dy) m.dy,
      (ps.getLast?.map fun p => p.status &&& 0x07).getD m.buttons⟩ := by
  induction ps generalizing m with
  | nil => rfl
  | cons p ps ih =>
    rw [List.foldl_cons, ih]
    cases ps with
    | nil => rfl
    | cons q ps => simp [Packet.apply, List.getLast?_cons]

/-- Each packet of a sequence adds its nine-bit deltas exactly when the signs fit
all the way, and then a drain returns the sums since the last one. -/
theorem packets_iff (hm : InRange m) (hps : ∀ p ∈ ps, p.Plain) :
    (Decodes m ps ↔ AllOk Packet.apply SignsFit m ps) ∧
      (AllOk Packet.apply SignsFit m.drain.2 ps →
        (feed (m.drain.2, []) (ps.flatMap Packet.bytes)).1.drain.1 =
          (ps.foldl (fun d p => saturatingAdd d p.dx) 0,
            ps.foldl (fun d p => saturatingAdd d p.dy) 0,
            (ps.getLast?.map fun p => p.status &&& 0x07).getD m.buttons)) := by
  refine ⟨decodes_iff hm hps, fun hok => ?_⟩
  have hdrained : InRange m.drain.2 := ⟨by simp [MouseState.drain], by simp [MouseState.drain]⟩
  have hdec := (decodes_iff hdrained hps).2 hok ps List.prefix_rfl
  rw [hdec, foldl_apply]
  rfl

/-- Two packets: two left and three down, then a click of the left button. -/
theorem packets_iff_two :
    Decodes ⟨0, 0, 0⟩ [⟨0x38, 254, 253⟩, ⟨0x09, 0, 0⟩] ∧
      (feed (⟨0, 0, 0⟩, []) [0x38, 254, 253, 0x09, 0, 0]).1.drain.1 = (-2, 3, 1) := by
  have hps : ∀ p ∈ [(⟨0x38, 254, 253⟩ : Packet), ⟨0x09, 0, 0⟩], p.Plain := by
    simp only [List.mem_cons, List.not_mem_nil, or_false, forall_eq_or_imp, forall_eq]
    exact ⟨⟨by decide, by decide, by decide⟩, ⟨by decide, by decide, by decide⟩⟩
  have hok : AllOk Packet.apply SignsFit ⟨0, 0, 0⟩ [⟨0x38, 254, 253⟩, ⟨0x09, 0, 0⟩] :=
    ⟨⟨Or.inl (by decide), Or.inl (by decide)⟩, ⟨Or.inl (by decide), Or.inl (by decide)⟩, trivial⟩
  have h := packets_iff (m := ⟨0, 0, 0⟩) ⟨by decide, by decide⟩ hps
  exact ⟨h.1.2 hok, h.2 hok⟩

/-- A movement of 200 to the right is taken for one of 56 to the left. -/
theorem not_decodes_right : ¬ ∀ (m : MouseState) (ps : List Packet), InRange m →
    (∀ p ∈ ps, p.Plain) → Decodes m ps := by
  intro h
  have hplain : ∀ p ∈ [(⟨0x08, 200, 0⟩ : Packet)], p.Plain := by
    simp only [List.mem_singleton, forall_eq]
    exact ⟨by decide, by decide, by decide⟩
  have hdec := h ⟨0, 0, 0⟩ _ ⟨by decide, by decide⟩ hplain _ List.prefix_rfl
  have hdx := congrArg (·.1.dx) hdec
  exact absurd hdx (by decide)

end AeroOS.Syscalls
