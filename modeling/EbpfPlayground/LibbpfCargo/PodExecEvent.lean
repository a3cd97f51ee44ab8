import EbpfPlayground.CoRe.EventLoop
import EbpfPlayground.Foundation.Hex
import EbpfPlayground.LibbpfCargo.Preservation

/-!
# The event of the execve probe as the daemon reads it

The probe outputs `pxevent` as it lies in memory, by the layout that the type table of
`podsnoop.bpf.c` tells.  `handle_pod_snoop_event` copies these bytes into the Rust struct that
libbpf-cargo generates from the table, and reads its fields.
-/

namespace EbpfPlayground.LibbpfCargo

open CoRe (PodExecEvent PatchCall SnoopEnv bufSize handlePodSnoopEvent snoopLoop)
open Layout (Shape)

def Scalar.size (target : Target) : Scalar → ℕ
  | .int _ bytes | .float bytes => bytes
  | .bool => 1
  | .pointer => target.ptrSize

/-- The scalars that some bytes hold. -/
def readScalars (target : Target) (cells : List (ℕ × Scalar)) (data : List UInt8) : List ℕ :=
  cells.map fun cell ↦ Hex.ofLeBytes ((data.drop cell.1).take (cell.2.size target))

/-- The fields of the generated struct, out of its scalars. -/
def eventOfScalars : List ℕ → Option PodExecEvent
  | cgroupId :: cgroupPid :: cgroupCmd =>
    if h : (cgroupCmd.map UInt8.ofNat).toArray.size = bufSize then
      some ⟨UInt64.ofNat cgroupId, UInt32.ofNat cgroupPid, ⟨(cgroupCmd.map UInt8.ofNat).toArray, h⟩⟩
    else none
  | _ => none

/-- `handle_pod_snoop_event` on the data of a sample; `plain::copy_from_bytes` refuses data that is
shorter than the struct, and reads nothing behind it. -/
def handleSample (shape : Shape Scalar) (env : SnoopEnv) (data : List UInt8) :
    CoRe.Outcome × Option PatchCall :=
  if data.length < shape.size then (.panic (.expect "Data buffer was too short".toList), none)
  else match eventOfScalars (readScalars target64 shape.cells data) with
    | some event => handlePodSnoopEvent env event
    | none => (.err, none)

/-- The samples of a perf buffer, one call of the handler after the other. -/
def sampleLoop (shape : Shape Scalar) :
    List (SnoopEnv × List UInt8) → List (Option PatchCall) × CoRe.Outcome
  | [] => ([], .ok)
  | (env, data) :: rest =>
    match handleSample shape env data with
    | (.panic cause, call) => ([call], .panic cause)
    | (_, call) => (call :: (sampleLoop shape rest).1, (sampleLoop shape rest).2)

/-- `pxevent` in memory: its members at the offsets of the table, and what is left as it was zeroed. -/
def eventBytes (event : PodExecEvent) : List UInt8 :=
  Hex.leBytes 8 event.cgroupId.toNat ++ Hex.leBytes 4 event.cgroupPid.toNat ++
    event.cgroupCmd.toList ++ List.replicate 4 0

def eventScalars (event : PodExecEvent) : List ℕ :=
  event.cgroupId.toNat :: event.cgroupPid.toNat :: event.cgroupCmd.toList.map UInt8.toNat

/-- The scalars of `pod_exec_event` in the table. -/
def eventCells : List (ℕ × Scalar) :=
  (0, .int false 8) :: (8, .int false 4) :: (List.range 32).map fun i ↦ (12 + i, .int false 1)

theorem cellsOf_podExecEvent : podsnoopBtf.cellsOf 9 12 = .ok eventCells := by
  rfl

theorem length_eventBytes (event : PodExecEvent) : (eventBytes event).length = 48 := by
  simp [eventBytes, Hex.length_leBytes, bufSize]

/-- The bytes of an event hold its scalars where the table says. -/
theorem readScalars_eventBytes (event : PodExecEvent) (behind : List UInt8) :
    readScalars target64 eventCells (eventBytes event ++ behind) = eventScalars event := by
  have hid : event.cgroupId.toNat < 256 ^ 8 := event.cgroupId.toNat_lt
  have hpid : event.cgroupPid.toNat < 256 ^ 4 := event.cgroupPid.toNat_lt
  have hcmd : event.cgroupCmd.toList.length = 32 := by simp
  obtain ⟨rest, hrest⟩ : ∃ rest, rest = List.replicate 4 0 ++ behind := ⟨_, rfl⟩
  have hdata : eventBytes event ++ behind = Hex.leBytes 8 event.cgroupId.toNat ++
      (Hex.leBytes 4 event.cgroupPid.toNat ++ (event.cgroupCmd.toList ++ rest)) := by
    simp only [eventBytes, List.append_assoc, hrest]
  have hfirst : (eventBytes event ++ behind).take 8 = Hex.leBytes 8 event.cgroupId.toNat := by
    rw [hdata, List.take_left' (Hex.length_leBytes _ _)]
  have hsecond : (eventBytes event ++ behind).drop 8 =
      Hex.leBytes 4 event.cgroupPid.toNat ++ (event.cgroupCmd.toList ++ rest) := by
    rw [hdata, List.drop_left' (Hex.length_leBytes _ _)]
  have hthird : (eventBytes event ++ behind).drop 12 = event.cgroupCmd.toList ++ rest := by
    rw [show 12 = 8 + 4 from rfl, ← List.drop_drop, hsecond, List.drop_left' (Hex.length_leBytes _ _)]
  have hbytes : (List.range 32).map (fun i ↦
      Hex.ofLeBytes (((eventBytes event ++ behind).drop (12 + i)).take 1)) =
        event.cgroupCmd.toList.map UInt8.toNat := by
    apply List.ext_getElem
    · rw [List.length_map, List.length_map, List.length_range, hcmd]
    · intro i hi hi'
      rw [List.length_map, List.length_range] at hi
      have hlt : i < event.cgroupCmd.toList.length := hcmd.symm ▸ hi
      have hone : ((eventBytes event ++ behind).drop (12 + i)).take 1 = [event.cgroupCmd.toList[i]] := by
        rw [← List.drop_drop, hthird, List.drop_append_of_le_length hlt.le, List.drop_eq_getElem_cons hlt]
        rfl
      rw [List.getElem_map, List.getElem_map, List.getElem_range, hone]
      exact Nat.ofDigits_singleton
  calc
    readScalars target64 eventCells (eventBytes event ++ behind) =
        Hex.ofLeBytes ((eventBytes event ++ behind).take 8) ::
          Hex.ofLeBytes (((eventBytes event ++ behind).drop 8).take 4) ::
            (List.range 32).map fun i ↦
              Hex.ofLeBytes (((eventBytes event ++ behind).drop (12 + i)).take 1) := by
      simp only [readScalars, eventCells, List.map_cons, List.map_map]
      rfl
    _ = eventScalars event := by
      rw [hfirst, hsecond, List.take_left' (Hex.length_leBytes _ _), hbytes,
        Hex.ofLeBytes_leBytes hid, Hex.ofLeBytes_leBytes hpid]
      rfl

theorem eventOfScalars_eventScalars (event : PodExecEvent) :
    eventOfScalars (eventScalars event) = some event := by
  have hcmd : (event.cgroupCmd.toList.map UInt8.toNat).map UInt8.ofNat = event.cgroupCmd.toList := by
    simp [List.map_map, Function.comp_def]
  have hsize : ((event.cgroupCmd.toList.map UInt8.toNat).map UInt8.ofNat).toArray.size = bufSize := by
    rw [hcmd]
    simp
  rw [eventScalars, eventOfScalars, dif_pos hsize]
  simp only [hcmd, UInt64.ofNat_toNat, UInt32.ofNat_toNat]
  rcases event with ⟨cgroupId, cgroupPid, ⟨array, harray⟩⟩
  rfl

/-- The struct that is generated for `pod_exec_event` holds the scalars of the table. -/
theorem podExecEvent_shape {shape : Shape Scalar}
    (h : itemShape target64 podsnoopItems 9 12 = some shape) :
    shape.size = 48 ∧ shape.cells = eventCells := by
  have halign : podsnoopBtf.alignOf 9 12 = .ok 8 := rfl
  obtain ⟨size, cells, hsize, hcells, hshape⟩ := item_shape suits_podsnoopBtf wellFormed_podsnoopBtf
    partsFit_podsnoopBtf typeDefinition_podsnoopBtf (List.mem_cons_of_mem _ List.mem_cons_self)
    (.inl rfl) halign
  obtain rfl := Option.some.inj (h.symm.trans hshape)
  obtain rfl := Except.ok.inj (cellsOf_podExecEvent.symm.trans hcells)
  obtain rfl : 48 = size := Except.ok.inj hsize
  exact ⟨rfl, rfl⟩

/-- The handler sees the event whose bytes the sample holds, whatever the perf buffer pads it with. -/
theorem handleSample_eventBytes {shape : Shape Scalar}
    (h : itemShape target64 podsnoopItems 9 12 = some shape) (env : SnoopEnv) (event : PodExecEvent)
    (behind : List UInt8) :
    handleSample shape env (eventBytes event ++ behind) = handlePodSnoopEvent env event := by
  obtain ⟨hsize, hcells⟩ := podExecEvent_shape h
  have hlong : ¬ (eventBytes event ++ behind).length < shape.size := by
    rw [List.length_append, length_eventBytes, hsize]
    omega
  rw [handleSample, if_neg hlong, hcells, readScalars_eventBytes, eventOfScalars_eventScalars]

/-- A perf buffer of samples is handled as the events that the probe output into it. -/
theorem sampleLoop_eq_snoopLoop {shape : Shape Scalar}
    (h : itemShape target64 podsnoopItems 9 12 = some shape)
    (items : List (SnoopEnv × PodExecEvent × List UInt8)) :
    sampleLoop shape (items.map fun item ↦ (item.1, eventBytes item.2.1 ++ item.2.2)) =
      snoopLoop (items.map fun item ↦ (item.1, item.2.1)) := by
  induction items with
  | nil => rfl
  | cons item items ih =>
    rw [List.map_cons, List.map_cons, sampleLoop, snoopLoop, handleSample_eventBytes h]
    obtain ⟨outcome, call⟩ := handlePodSnoopEvent item.1 item.2.1
    cases outcome with
    | panic cause => rfl
    | ok | err => exact congrArg (fun rest ↦ (call :: rest.1, rest.2)) ih

theorem sampleLoop_eq_snoopLoop_demo : ∃ shape, itemShape target64 podsnoopItems 9 12 = some shape ∧
    ∀ items : List (SnoopEnv × PodExecEvent × List UInt8),
      sampleLoop shape (items.map fun item ↦ (item.1, eventBytes item.2.1 ++ item.2.2)) =
        snoopLoop (items.map fun item ↦ (item.1, item.2.1)) :=
  ⟨_, rfl, sampleLoop_eq_snoopLoop rfl⟩

end EbpfPlayground.LibbpfCargo
