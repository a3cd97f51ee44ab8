import EbpfPlayground.Foundation.Hex
import EbpfPlayground.Foundation.Metering

/-!
# The traffic statistics hook

`tc_pod_net_stats_tx` sees every packet that a pod sends.  Only the linear part of a packet lies
between `data` and `data_end`; the rest is paged, and `skb->len` counts both.  The hook never looks
at the EtherType, leaves out a packet whose linear part is exactly the two headers, and takes the
length of the linear part for the length of the packet.  Without packets of these kinds its records
account for the IPv4 traffic.
-/

namespace EbpfPlayground.NetStats

open Hex Metering

/-- `sizeof(struct ethhdr)`. -/
def sizeofEthhdr : ℕ := 14

/-- `sizeof(struct iphdr)`. -/
def sizeofIphdr : ℕ := 20

/-- `offsetof(struct iphdr, saddr)`. -/
def offsetofSaddr : ℕ := 12

def tcActOk : ℕ := 0

/-- `struct __sk_buff`, as far as the hook can tell packets apart. -/
structure SkBuff where
  /-- The address of the first byte. -/
  data : ℕ
  linear : List UInt8
  paged : List UInt8
  len_lt : linear.length + paged.length < 2 ^ 32

/-- The values that `bpf_trace_printk` writes after `SRC:` and `BYTES=`. -/
structure Record where
  src : ℕ
  bytes : ℕ
  deriving DecidableEq

namespace SkBuff

def dataEnd (skb : SkBuff) : ℕ := skb.data + skb.linear.length

/-- `skb->len`. -/
def len (skb : SkBuff) : ℕ := skb.linear.length + skb.paged.length

/-- A load of four bytes; `none` where one of them is not between `data` and `data_end`. -/
def load32 (skb : SkBuff) (order : ByteOrder) (address : ℕ) : Option ℕ :=
  if skb.data ≤ address ∧ address + 4 ≤ skb.dataEnd then
    some (order.load ((skb.linear.drop (address - skb.data)).take 4))
  else none

/-- The EtherType field says IPv4. -/
def IsIPv4 (skb : SkBuff) : Prop := (skb.linear.drop 12).take 2 = [0x08, 0x00]

instance (skb : SkBuff) : Decidable skb.IsIPv4 := inferInstanceAs (Decidable (_ = _))

/-- The source address of the IPv4 header, in host byte order. -/
def sourceAddress (skb : SkBuff) : ℕ := ofLeBytes ((skb.linear.drop 26).take 4).reverse

/-- The packets that the traffic of an address consists of. -/
def SentBy (a : ℕ) (skb : SkBuff) : Prop :=
  skb.IsIPv4 ∧ sizeofEthhdr + sizeofIphdr ≤ skb.linear.length ∧ skb.sourceAddress = a

instance (a : ℕ) (skb : SkBuff) : Decidable (skb.SentBy a) := inferInstanceAs (Decidable (_ ∧ _))

end SkBuff

/-- The hook: the record it writes, if any, and its verdict; `none` stands for a read outside of
the linear part. -/
def tcPodNetStatsTx (order : ByteOrder) (skb : SkBuff) : Option (Option Record × ℕ) :=
  let len := (skb.dataEnd - skb.data) % 2 ^ 32
  if skb.data + sizeofEthhdr + sizeofIphdr < skb.dataEnd then
    (skb.load32 order (skb.data + sizeofEthhdr + offsetofSaddr)).map fun saddr ↦
      (some ⟨bpfNtohl order saddr, len⟩, tcActOk)
  else some (none, tcActOk)

/-- The record that a packet leaves. -/
def recordOf (order : ByteOrder) (skb : SkBuff) : Option Record :=
  (tcPodNetStatsTx order skb).bind Prod.fst

/-- The records of a sequence of packets. -/
def records (order : ByteOrder) (skbs : List SkBuff) : List Record := skbs.filterMap (recordOf order)

/-- Every read is inside the linear part and every packet is passed on. -/
def Harmless (order : ByteOrder) (skbs : List SkBuff) : Prop :=
  ∀ skb ∈ skbs, ∃ record, tcPodNetStatsTx order skb = some (record, tcActOk)

/-- The records account for the packets of every address, and for nothing else. -/
structure Faithful (order : ByteOrder) (skbs : List SkBuff) : Prop where
  count : ∀ a, ((records order skbs).filter (·.src = a)).length =
    (skbs.filter fun skb ↦ skb.SentBy a).length
  total : ∀ a, (((records order skbs).filter (·.src = a)).map Record.bytes).sum =
    ((skbs.filter fun skb ↦ skb.SentBy a).map SkBuff.len).sum
  noOther : ∀ skb ∈ skbs, ¬ skb.IsIPv4 → recordOf order skb = none

/-- An IPv4 packet has more bytes in its linear part than the two headers or fewer, and a packet
with more is IPv4 and has no paged bytes. -/
structure SkBuff.Plain (skb : SkBuff) : Prop where
  length_ne : skb.IsIPv4 → skb.linear.length ≠ sizeofEthhdr + sizeofIphdr
  isIPv4 : sizeofEthhdr + sizeofIphdr < skb.linear.length → skb.IsIPv4
  paged_eq_nil : sizeofEthhdr + sizeofIphdr < skb.linear.length → skb.paged = []

/-! ## What the hook does with one packet -/

/-- The hook writes a record exactly where the linear part is longer than the two headers. -/
theorem tcPodNetStatsTx_eq (order : ByteOrder) (skb : SkBuff) :
    tcPodNetStatsTx order skb =
      some (if sizeofEthhdr + sizeofIphdr < skb.linear.length then
        some ⟨skb.sourceAddress, skb.linear.length⟩ else none, tcActOk) := by
  have hlen : (skb.dataEnd - skb.data) % 2 ^ 32 = skb.linear.length := by
    have hlt := skb.len_lt
    rw [SkBuff.dataEnd, Nat.add_sub_cancel_left, Nat.mod_eq_of_lt (by omega)]
  have hguard : skb.data + sizeofEthhdr + sizeofIphdr < skb.dataEnd ↔
      sizeofEthhdr + sizeofIphdr < skb.linear.length := by
    rw [SkBuff.dataEnd, Nat.add_assoc, Nat.add_lt_add_iff_left]
  simp only [tcPodNetStatsTx, hguard, hlen]
  split
  · next hlong =>
    simp only [sizeofEthhdr, sizeofIphdr] at hlong
    have hbounds : skb.data ≤ skb.data + sizeofEthhdr + offsetofSaddr ∧
        skb.data + sizeofEthhdr + offsetofSaddr + 4 ≤ skb.dataEnd := by
      simp only [SkBuff.dataEnd, sizeofEthhdr, offsetofSaddr]
      omega
    have hoffset : skb.data + sizeofEthhdr + offsetofSaddr - skb.data = 26 := by
      rw [Nat.add_assoc, Nat.add_sub_cancel_left]
      rfl
    have hlength : ((skb.linear.drop 26).take 4).length = 4 := by
      rw [List.length_take, List.length_drop]
      omega
    rw [SkBuff.load32, if_pos hbounds, hoffset, Option.map_some, bpfNtohl_load order hlength]
    rfl
  · rfl

theorem recordOf_eq (order : ByteOrder) (skb : SkBuff) :
    recordOf order skb = if sizeofEthhdr + sizeofIphdr < skb.linear.length then
      some ⟨skb.sourceAddress, skb.linear.length⟩ else none := by
  rw [recordOf, tcPodNetStatsTx_eq, Option.bind_some]

/-- The hook reads nothing outside of the linear part and passes every packet on. -/
theorem harmless (order : ByteOrder) (skbs : List SkBuff) : Harmless order skbs :=
  fun skb _ ↦ ⟨_, tcPodNetStatsTx_eq order skb⟩

/-! ## The hook and the traffic as meters -/

/-- What the hook charges to an address. -/
def recorded (order : ByteOrder) (skb : SkBuff) : Option (ℕ × ℕ) :=
  (recordOf order skb).map fun record ↦ (record.src, record.bytes)

/-- What a packet is worth to the address that sent it. -/
def sent (skb : SkBuff) : Option (ℕ × ℕ) :=
  if skb.IsIPv4 ∧ sizeofEthhdr + sizeofIphdr ≤ skb.linear.length then
    some (skb.sourceAddress, skb.len) else none

theorem bill_recorded (order : ByteOrder) (a : ℕ) (skbs : List SkBuff) :
    bill (recorded order) a skbs =
      ((records order skbs).filter (·.src = a)).map Record.bytes := by
  have hmeter : recorded order =
      fun skb ↦ (recordOf order skb).map fun record ↦ (record.src, record.bytes) := by
    funext skb
    rfl
  rw [bill, hmeter, ← List.map_filterMap, List.filter_map, List.map_map]
  rfl

theorem bill_sent (a : ℕ) (skbs : List SkBuff) :
    bill sent a skbs = (skbs.filter fun skb ↦ skb.SentBy a).map SkBuff.len := by
  induction skbs with
  | nil => rfl
  | cons skb skbs ih =>
    by_cases hcounts : skb.IsIPv4 ∧ sizeofEthhdr + sizeofIphdr ≤ skb.linear.length
    · have hsent : sent skb = some (skb.sourceAddress, skb.len) := if_pos hcounts
      rw [bill_cons_of_some hsent, ih, List.filter_cons]
      by_cases haddress : skb.sourceAddress = a
      · have hsentBy : skb.SentBy a := ⟨hcounts.1, hcounts.2, haddress⟩
        rw [if_pos haddress, if_pos (decide_eq_true hsentBy), List.map_cons]
      · have hsentBy : ¬ skb.SentBy a := fun h ↦ haddress h.2.2
        rw [if_neg haddress, if_neg (by simpa using hsentBy)]
    · have hsent : sent skb = none := if_neg hcounts
      have hsentBy : ¬ skb.SentBy a := fun h ↦ hcounts ⟨h.1, h.2.1⟩
      rw [bill_cons_of_none hsent, ih, List.filter_cons, if_neg (by simpa using hsentBy)]

/-- Counts and totals are right exactly when the two meters agree. -/
theorem faithful_iff_agree (order : ByteOrder) (skbs : List SkBuff) :
    Faithful order skbs ↔ Agree (recorded order) sent skbs ∧
      ∀ skb ∈ skbs, ¬ skb.IsIPv4 → recordOf order skb = none := by
  have hbills : ∀ a, (bill (recorded order) a skbs).length =
      ((records order skbs).filter (·.src = a)).length ∧
      (bill sent a skbs).length = (skbs.filter fun skb ↦ skb.SentBy a).length := by
    intro a
    rw [bill_recorded, bill_sent, List.length_map, List.length_map]
    exact ⟨rfl, rfl⟩
  constructor
  · intro h
    refine ⟨fun a ↦ ⟨?_, ?_⟩, h.noOther⟩
    · rw [(hbills a).1, (hbills a).2]
      exact h.count a
    · rw [bill_recorded, bill_sent]
      exact h.total a
  · intro h
    refine ⟨fun a ↦ ?_, fun a ↦ ?_, h.2⟩
    · rw [← (hbills a).1, ← (hbills a).2]
      exact (h.1 a).1
    · rw [← bill_recorded, ← bill_sent]
      exact (h.1 a).2

/-- Where no other packet leaves a record, the hook charges no address too much. -/
theorem recorded_within {order : ByteOrder} {skb : SkBuff}
    (h : ¬ skb.IsIPv4 → recordOf order skb = none) : Within (recorded order) sent skb := by
  intro account amount hcharge
  rw [recordOf_eq] at h
  rw [recorded, recordOf_eq] at hcharge
  split at hcharge
  · next hlong =>
    have hip : skb.IsIPv4 := by
      by_contra hother
      rw [if_pos hlong] at h
      cases h hother
    have hboth : skb.sourceAddress = account ∧ skb.linear.length = amount := by
      simpa using hcharge
    refine ⟨skb.len, ?_, ?_⟩
    · rw [← hboth.2]
      exact Nat.le_add_right _ _
    · rw [sent, if_pos ⟨hip, hlong.le⟩, hboth.1]
  · cases hcharge

/-- The two meters charge an IPv4 packet alike exactly when it is a plain one. -/
theorem plain_iff (order : ByteOrder) (skb : SkBuff) :
    skb.Plain ↔ recorded order skb = sent skb ∧ (¬ skb.IsIPv4 → recordOf order skb = none) := by
  have hlen : skb.linear.length = skb.len ↔ skb.paged = [] := by
    rw [SkBuff.len, ← List.length_eq_zero_iff]
    omega
  rw [recorded, recordOf_eq]
  by_cases hip : skb.IsIPv4
  · rcases lt_trichotomy (sizeofEthhdr + sizeofIphdr) skb.linear.length with hlong | heq | hshort
    · have hsent : sent skb = some (skb.sourceAddress, skb.len) := if_pos ⟨hip, hlong.le⟩
      simp only [if_pos hlong, hsent, Option.map_some, Option.some.injEq, Prod.mk.injEq, true_and,
        hlen, hip, not_true_eq_false, false_imp_iff, and_true]
      exact ⟨fun h ↦ h.paged_eq_nil hlong, fun h ↦ ⟨fun _ ↦ hlong.ne', fun _ ↦ hip, fun _ ↦ h⟩⟩
    · have hsent : sent skb = some (skb.sourceAddress, skb.len) := if_pos ⟨hip, heq.le⟩
      rw [if_neg heq.not_lt, hsent]
      refine iff_of_false (fun h ↦ h.length_ne hip heq.symm) fun h ↦ ?_
      cases h.1
    · have hsent : sent skb = none := if_neg fun h ↦ h.2.not_gt hshort
      rw [if_neg hshort.not_gt, hsent]
      refine iff_of_true ⟨fun _ ↦ hshort.ne, fun _ ↦ hip, fun h ↦ ?_⟩ ⟨rfl, fun _ ↦ rfl⟩
      exact absurd h hshort.not_gt
  · have hsent : sent skb = none := if_neg fun h ↦ hip h.1
    rw [hsent]
    by_cases hlong : sizeofEthhdr + sizeofIphdr < skb.linear.length
    · rw [if_pos hlong]
      refine iff_of_false (fun h ↦ hip (h.isIPv4 hlong)) fun h ↦ ?_
      cases h.1
    · rw [if_neg hlong]
      exact iff_of_true ⟨fun h ↦ absurd h hip, fun h ↦ absurd h hlong, fun h ↦ absurd h hlong⟩
        ⟨rfl, fun _ ↦ rfl⟩

/-- The hook is harmless on every sequence of packets, and faithful exactly on those of plain
packets. -/
theorem accounting_iff (order : ByteOrder) (skbs : List SkBuff) :
    (Harmless order skbs ∧ Faithful order skbs) ↔ ∀ skb ∈ skbs, skb.Plain := by
  rw [and_iff_right (harmless order skbs), faithful_iff_agree]
  constructor
  · rintro ⟨hagree, hother⟩ skb hskb
    have heq := eq_of_agree (fun skb hskb ↦ recorded_within (hother skb hskb)) hagree
    exact (plain_iff order skb).mpr ⟨heq skb hskb, hother skb hskb⟩
  · intro hplain
    have hother : ∀ skb ∈ skbs, ¬ skb.IsIPv4 → recordOf order skb = none :=
      fun skb hskb ↦ ((plain_iff order skb).mp (hplain skb hskb)).2
    refine ⟨?_, hother⟩
    rw [agree_iff fun skb hskb ↦ recorded_within (hother skb hskb)]
    exact fun skb hskb ↦ ((plain_iff order skb).mp (hplain skb hskb)).1

/-- An IPv4 packet from 10.0.0.1 that ends with its header. -/
def headerOnly : SkBuff where
  data := 0
  linear := List.replicate 12 0 ++ [0x08, 0x00] ++ List.replicate 12 0 ++ [10, 0, 0, 1] ++
    List.replicate 4 0
  paged := []
  len_lt := by decide

/-- One packet from 10.0.0.1 passes the hook, and no record is written. -/
theorem accounting_counterexample :
    ¬ (Harmless .little [headerOnly] ∧ Faithful .little [headerOnly]) := by
  intro h
  have hcount := h.2.count 0x0a000001
  revert hcount
  decide

end EbpfPlayground.NetStats
