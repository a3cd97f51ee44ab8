import EbpfPlayground.Foundation.Shell

/-!
# Interfaces as `tc` sees them

An interface has at most one of the two qdiscs whose ingress side carries filters, and a list of
filters there.  `tc` adds a filter behind those that are there and lists each one on lines of its
own.  What these lines hold is left open, except that a filter from an object file is listed with
its section.
-/

namespace EbpfPlayground.NetStats

open Shell

/-- The default values, which both attachers have. -/
def txStatsProgramName : Text := "./obj/bpf_network_stats.o".toList

def txStatsSectionName : Text := "pod_net_stats_tx".toList

/-- The qdiscs with an ingress side. -/
inductive Qdisc
  | clsact
  | ingress
  deriving DecidableEq

inductive Filter
  | bpf (object sectionName : Text)
  /-- A filter of another kind, with its lines in the listing. -/
  | other (lines : List Text)
  deriving DecidableEq

/-- The ingress side of an interface. -/
@[ext]
structure Hook where
  qdisc : Option Qdisc
  ingress : List Filter
  noQdisc : qdisc = none → ingress = []
  deriving DecidableEq

/-- No qdisc and no filter. -/
def Hook.bare : Hook := ⟨none, [], fun _ ↦ rfl⟩

/-- The interfaces of the host's network namespace. -/
abbrev Interfaces := Text → Option Hook

/-- The lines of `tc filter show` for a filter. -/
structure Listing where
  bpf : Text → Text → List Text
  section_mem : ∀ object sectionName,
    ∃ line ∈ bpf object sectionName, contains sectionName line = true

namespace Listing

def lines (listing : Listing) : Filter → List Text
  | .bpf object sectionName => listing.bpf object sectionName
  | .other lines => lines

/-- The listing of the filter contains this text. -/
def Shows (listing : Listing) (needle : Text) (filter : Filter) : Prop :=
  ∃ line ∈ listing.lines filter, contains needle line = true

instance (listing : Listing) (needle : Text) (filter : Filter) :
    Decidable (listing.Shows needle filter) := inferInstanceAs (Decidable (∃ line ∈ _, _))

theorem shows_bpf (listing : Listing) (object sectionName : Text) :
    listing.Shows sectionName (.bpf object sectionName) := listing.section_mem object sectionName

/-- An object file's name and, in brackets, the section. -/
def demo : Listing where
  bpf := fun object sectionName ↦ [object ++ ":[".toList ++ sectionName ++ "]".toList]
  section_mem := by
    intro object sectionName
    refine ⟨_, List.mem_cons_self, ?_⟩
    rw [contains_eq_true]
    exact List.infix_append _ _ _

end Listing

/-- `tc filter show dev .. ingress`; nothing where there is no such interface. -/
def tcFilterShow (listing : Listing) : Option Hook → List Text
  | none => []
  | some hook => hook.ingress.flatMap listing.lines

/-- `tc qdisc show dev ..`; `none` where it fails. -/
def tcQdiscShow : Option Hook → Option (List Text)
  | none => none
  | some hook =>
    match hook.qdisc with
    | none => some ["qdisc noqueue 0: root refcnt 2".toList]
    | some .clsact => some ["qdisc noqueue 0: root refcnt 2".toList,
        "qdisc clsact ffff: parent ffff:fff1".toList]
    | some .ingress => some ["qdisc noqueue 0: root refcnt 2".toList,
        "qdisc ingress ffff: parent ffff:fff1".toList]

/-- `tc qdisc add dev .. clsact`; `none` where it fails. -/
def tcQdiscAdd : Option Hook → Option Hook
  | none => none
  | some hook =>
    if hook.qdisc = none then some ⟨some .clsact, hook.ingress, fun h ↦ nomatch h⟩ else none

/-- `tc filter add dev .. ingress bpf da obj .. sec ..`; `none` where it fails. -/
def tcFilterAdd (object sectionName : Text) : Option Hook → Option Hook
  | none => none
  | some hook =>
    if h : hook.qdisc = none then none
    else some ⟨hook.qdisc, hook.ingress ++ [.bpf object sectionName], fun hnone ↦ absurd hnone h⟩

/-! ## What the commands see and change -/

/-- The filters of an interface whose listing contains the text. -/
def Hook.shown (listing : Listing) (needle : Text) (hook : Hook) : List Filter :=
  hook.ingress.filter fun filter ↦ listing.Shows needle filter

/-- `grep` finds nothing in the listing exactly when no filter is listed with the text. -/
theorem grep_tcFilterShow_eq_nil {listing : Listing} {needle : Text} {hook : Hook} :
    grep needle (tcFilterShow listing (some hook)) = [] ↔ hook.shown listing needle = [] := by
  rw [grep_eq_nil, Hook.shown, List.filter_eq_nil_iff]
  constructor
  · intro h filter hfilter hshows
    obtain ⟨line, hline, hcontains⟩ := of_decide_eq_true hshows
    rw [h line (List.mem_flatMap.mpr ⟨filter, hfilter, hline⟩)] at hcontains
    cases hcontains
  · intro h line hline
    obtain ⟨filter, hfilter, hmem⟩ := List.mem_flatMap.mp hline
    by_contra hcontains
    rw [Bool.not_eq_false] at hcontains
    exact h filter hfilter (decide_eq_true ⟨line, hmem, hcontains⟩)

/-- A filter that is added for a section is listed with it. -/
theorem shown_of_ingress (listing : Listing) {object sectionName : Text} {hook hook' : Hook}
    (h : hook'.ingress = hook.ingress ++ [.bpf object sectionName]) :
    hook'.shown listing sectionName = hook.shown listing sectionName ++ [.bpf object sectionName] := by
  have hsingle : [Filter.bpf object sectionName].filter (fun filter ↦ listing.Shows sectionName filter) =
      [.bpf object sectionName] :=
    List.filter_cons_of_pos (decide_eq_true (listing.shows_bpf object sectionName))
  rw [Hook.shown, Hook.shown, h, List.filter_append, hsingle]

theorem grep_tcQdiscShow {hook : Hook} {lines : List Text} (h : tcQdiscShow (some hook) = some lines) :
    grep "clsact".toList lines = [] ↔ hook.qdisc ≠ some .clsact := by
  rw [tcQdiscShow] at h
  cases hqdisc : hook.qdisc with
  | none =>
    rw [hqdisc] at h
    cases h
    decide
  | some qdisc =>
    rw [hqdisc] at h
    cases qdisc <;> cases h <;> decide

theorem tcQdiscAdd_eq_some {hook : Option Hook} {hook' : Hook} :
    tcQdiscAdd hook = some hook' ↔
      ∃ old, hook = some old ∧ old.qdisc = none ∧ hook'.qdisc = some .clsact ∧
        hook'.ingress = old.ingress := by
  cases hook with
  | none => simp [tcQdiscAdd]
  | some old =>
    rw [tcQdiscAdd]
    simp only [Option.some.injEq, exists_eq_left']
    split
    · next hqdisc =>
      rw [and_iff_right hqdisc, Option.some.injEq, Hook.ext_iff, eq_comm, eq_comm (a := hook'.ingress)]
    · next hqdisc => simp [hqdisc]

theorem tcFilterAdd_eq_some {object sectionName : Text} {hook : Option Hook} {hook' : Hook} :
    tcFilterAdd object sectionName hook = some hook' ↔
      ∃ old, hook = some old ∧ old.qdisc ≠ none ∧ hook'.qdisc = old.qdisc ∧
        hook'.ingress = old.ingress ++ [.bpf object sectionName] := by
  cases hook with
  | none => simp [tcFilterAdd]
  | some old =>
    rw [tcFilterAdd]
    simp only [Option.some.injEq, exists_eq_left']
    split
    · next hqdisc => simp [hqdisc]
    · next hqdisc =>
      rw [and_iff_right hqdisc, Option.some.injEq, Hook.ext_iff, eq_comm, eq_comm (a := hook'.ingress)]

end EbpfPlayground.NetStats
