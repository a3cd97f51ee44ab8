import EbpfPlayground.Foundation.Run
import EbpfPlayground.HostProcessId.NumToHexStr

/-!
# The identity that the datapath uses

The patched `__encap_with_nodeid`, built with `ENABLE_HOST_PROCESS_NETID` for an skb context, looks
the packet's cgroup up in the map that the script writes.  On a little-endian host both sides mean
the same bytes, so a packet gets the identity of the last run of the script for its cgroup, and the
label it had otherwise.
-/

namespace EbpfPlayground.HostProcessId

open Hex Text

/-- The bytes of a `host_process_netid_key`. -/
def netidKey (cgroupId : UInt64) : CString.Buffer 8 := leBuffer 8 cgroupId.toNat

/-- The `network_id` of a `host_process_netid_value`. -/
def networkId (netidvalue : CString.Buffer 4) : UInt32 := UInt32.ofNat (ofLeBytes netidvalue.toList)

/-- The label that `__encap_with_nodeid` encapsulates a packet of this cgroup with. -/
def encapWithNodeid (hostId localNodeId : UInt32) (netidMap : HostProcessNetidMap)
    (cgroupId : UInt64) (seclabel : UInt32) : UInt32 :=
  let seclabel := if seclabel = hostId then localNodeId else seclabel
  match netidMap.lookup (netidKey cgroupId) with
  | some netidvalue => networkId netidvalue
  | none => seclabel

/-- A run of the script for a cgroup id and an identity in decimal. -/
def magicStep (hpMapId : ℕ) (netidMap : HostProcessNetidMap) (pair : ℕ × ℕ) :
    Option HostProcessNetidMap :=
  doEbpfMagic (decimal hpMapId) (decimal pair.1) (decimal pair.2) netidMap

/-- Cgroup id and identity are in range. -/
def InRange (pair : ℕ × ℕ) : Prop := pair.1 < 2 ^ 64 ∧ pair.2 < 2 ^ 32

/-- The map after some runs: it has the keys of their cgroup ids, and each key has the identity of
the last run. -/
structure Written (pairs : List (ℕ × ℕ)) (netidMap : HostProcessNetidMap) : Prop where
  keys : netidMap.keys = (pairs.map fun pair ↦ leBuffer 8 pair.1).toFinset
  lookup : ∀ g < 2 ^ 64,
    netidMap.lookup (leBuffer 8 g) = (pairs.reverse.lookup g).map (leBuffer 4)

theorem lookup_reverse_concat (pairs : List (ℕ × ℕ)) (g n h : ℕ) :
    (pairs ++ [(g, n)]).reverse.lookup h = if h = g then some n else pairs.reverse.lookup h := by
  rw [List.reverse_append, List.reverse_singleton, List.singleton_append, List.lookup_cons]
  by_cases heq : h = g
  · rw [if_pos heq, heq, beq_self_eq_true]
  · rw [if_neg heq, beq_eq_false_iff_ne.mpr heq]

/-- One more run, with room for its cgroup id. -/
theorem Written.magicStep {pairs : List (ℕ × ℕ)} {netidMap : HostProcessNetidMap}
    (hwritten : Written pairs netidMap) (hpMapId : ℕ) {pair : ℕ × ℕ} (hpair : InRange pair)
    (hroom : ((pairs ++ [pair]).map Prod.fst).toFinset.card ≤ hostProcessNetidMapSize) :
    ∃ netidMap', magicStep hpMapId netidMap pair = some netidMap' ∧
      Written (pairs ++ [pair]) netidMap' := by
  obtain ⟨g, n⟩ := pair
  obtain ⟨hg, hn⟩ := hpair
  have hkeys : insert (leBuffer 8 g) netidMap.keys =
      ((pairs ++ [(g, n)]).map fun pair ↦ leBuffer 8 pair.1).toFinset := by
    rw [hwritten.keys]
    ext key
    simp
  have haccepts : netidMap.Accepts (leBuffer 8 g) := by
    by_cases hmem : leBuffer 8 g ∈ netidMap.keys
    · exact .inl hmem
    · right
      have hcard : (insert (leBuffer 8 g) netidMap.keys).card ≤ hostProcessNetidMapSize := by
        calc
          (insert (leBuffer 8 g) netidMap.keys).card
              = (((pairs ++ [(g, n)]).map Prod.fst).toFinset.image (leBuffer 8)).card := by
            rw [hkeys]
            congr 1
            ext key
            simp
          _ ≤ ((pairs ++ [(g, n)]).map Prod.fst).toFinset.card := Finset.card_image_le
          _ ≤ hostProcessNetidMapSize := hroom
      rwa [Finset.card_insert_of_notMem hmem] at hcard
  refine ⟨netidMap.put (leBuffer 8 g) (leBuffer 4 n), ?_, ?_, ?_⟩
  · rw [HostProcessId.magicStep, doEbpfMagic_eq hpMapId hg hn]
    exact BoundedMap.update_of_accepts _ haccepts
  · rw [BoundedMap.keys_put_of_accepts _ haccepts, hkeys]
  · intro h hh
    rw [lookup_reverse_concat]
    by_cases heq : h = g
    · rw [if_pos heq, heq, BoundedMap.lookup_put_self _ haccepts]
      rfl
    · rw [if_neg heq, BoundedMap.lookup_put_of_ne _ _ fun hkey ↦ heq (leBuffer_inj 8 hh hg hkey),
        hwritten.lookup h hh]

/-- Runs that use no more cgroup ids than the map has room for all succeed. -/
theorem exists_written (hpMapId : ℕ) (pairs : List (ℕ × ℕ)) (hpairs : ∀ pair ∈ pairs, InRange pair)
    (hroom : (pairs.map Prod.fst).toFinset.card ≤ hostProcessNetidMapSize) :
    ∃ netidMap, Run.run (magicStep hpMapId) BoundedMap.empty pairs = some netidMap ∧
      Written pairs netidMap := by
  induction pairs using List.reverseRecOn with
  | nil => exact ⟨BoundedMap.empty, rfl, by simp, by simp⟩
  | append_singleton pairs pair ih =>
    have hfewer : (pairs.map Prod.fst).toFinset.card ≤ hostProcessNetidMapSize := by
      refine le_trans (Finset.card_le_card ?_) hroom
      intro g hg
      rw [List.mem_toFinset] at hg ⊢
      rw [List.map_append]
      exact List.mem_append_left _ hg
    obtain ⟨netidMap, hrun, hwritten⟩ :=
      ih (fun other hother ↦ hpairs other (List.mem_append_left _ hother)) hfewer
    obtain ⟨netidMap', hstep, hwritten'⟩ := hwritten.magicStep hpMapId
      (hpairs pair (List.mem_append_right _ List.mem_cons_self)) hroom
    exact ⟨netidMap', Run.run_concat_eq_some.mpr ⟨netidMap, hrun, hstep⟩, hwritten'⟩

theorem networkId_leBuffer {n : ℕ} (h : n < 2 ^ 32) : networkId (leBuffer 4 n) = UInt32.ofNat n := by
  rw [networkId, toList_leBuffer, ofLeBytes_leBytes (by omega)]

/-- After any runs of the script in range and with room in the map, the datapath encapsulates a packet
with the identity of the last run for its cgroup, and with its own label or `LOCAL_NODE_ID` where
there is none. -/
theorem encap_label (hostId localNodeId : UInt32) (hpMapId : ℕ) (pairs : List (ℕ × ℕ))
    (hpairs : ∀ pair ∈ pairs, InRange pair)
    (hroom : (pairs.map Prod.fst).toFinset.card ≤ hostProcessNetidMapSize) :
    ∃ netidMap, Run.run (magicStep hpMapId) BoundedMap.empty pairs = some netidMap ∧
      ∀ (cgroupId : UInt64) (seclabel : UInt32),
        encapWithNodeid hostId localNodeId netidMap cgroupId seclabel =
          match pairs.reverse.lookup cgroupId.toNat with
          | some n => UInt32.ofNat n
          | none => if seclabel = hostId then localNodeId else seclabel := by
  obtain ⟨netidMap, hrun, hwritten⟩ := exists_written hpMapId pairs hpairs hroom
  refine ⟨netidMap, hrun, fun cgroupId seclabel ↦ ?_⟩
  rw [encapWithNodeid, netidKey, hwritten.lookup _ cgroupId.toNat_lt]
  cases hlast : pairs.reverse.lookup cgroupId.toNat with
  | none => rfl
  | some n =>
    have hmem : (cgroupId.toNat, n) ∈ pairs := by
      have hfound := List.lookup_eq_some_iff.mp hlast
      obtain ⟨first, last, hsplit, -⟩ := hfound
      rw [← List.mem_reverse, hsplit]
      simp
    exact networkId_leBuffer (hpairs _ hmem).2

/-- Three runs for two cgroups: the later one of the first cgroup counts. -/
theorem encap_label_auditor :
    ∃ netidMap, Run.run (magicStep 7) BoundedMap.empty [(4242, 12345), (77, 9), (4242, 54321)] =
        some netidMap ∧ ∀ seclabel, encapWithNodeid 1 6 netidMap 4242 seclabel = 54321 := by
  obtain ⟨netidMap, hrun, hlabel⟩ :=
    encap_label 1 6 7 [(4242, 12345), (77, 9), (4242, 54321)] (by unfold InRange; decide) (by decide)
  exact ⟨netidMap, hrun, fun seclabel ↦ hlabel 4242 seclabel⟩

end EbpfPlayground.HostProcessId
