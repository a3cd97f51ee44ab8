import EbpfPlayground.Foundation.Run
import EbpfPlayground.NetStats.TrafficControl

/-!
# The shell attacher

`do_attach_ebpf_netstats_prog.sh` walks the interfaces that `ip` lists with a `cni-` namespace and
runs three `tc` commands on each.  Its runs are given as single commands, so that interfaces can
come and go between any two of them and every `add` can fail.  No interface ever gets a second
statistics filter, since nothing but the script adds one and it looks first; and a run that is not
disturbed leaves one on each listed interface, if the text processing keeps the interface's name.
-/

namespace EbpfPlayground.NetStats

open Shell

/-- What the script gets from outside its own code. -/
structure ScriptEnv where
  listing : Listing
  /-- Pathname expansion of one field; the field itself where no file matches. -/
  glob : Text → List Text

namespace ScriptEnv

/-- Field splitting and pathname expansion of an unquoted expansion. -/
def expand (env : ScriptEnv) (text : Text) : List Text := (words text).flatMap env.glob

/-- `awk '\x7bprint $2\x7d' | cut -d@ -f1` on one line. -/
def nameField (line : Text) : Text := ((words line)[1]?.getD []).takeWhile (· ≠ '@')

/-- The words of the `for` loop, from the lines that `ip -o -d link show type veth` prints. -/
def loopWords (env : ScriptEnv) (output : List Text) : List Text :=
  env.expand (commandSubst (stdout ((grep "cni-".toList output).map nameField)))

/-- The interface that a command with `dev $ifname` is about; with more words or none `tc` fails. -/
def device (env : ScriptEnv) (word : Text) : Option Text :=
  match env.expand word with
  | [name] => some name
  | _ => none

/-- The interface's statistics filters. -/
def stats (env : ScriptEnv) (hook : Hook) : List Filter := hook.shown env.listing txStatsSectionName

end ScriptEnv

/-- Where the script is. -/
inductive Pc
  | idle
  /-- At the head of the loop, with the words that are left. -/
  | next (rest : List Text)
  | qdisc (word : Text) (rest : List Text)
  | filter (word : Text) (rest : List Text)
  deriving DecidableEq

structure ScriptState where
  interfaces : Interfaces
  pc : Pc

/-- A command of the script, with its result, or a change of the interfaces by somebody else. -/
inductive Action
  /-- A run begins, and `ip` prints these lines. -/
  | start (output : List Text)
  | filterShow (word : Text)
  | qdiscAdd (word : Text) (ok : Bool)
  | filterAdd (word : Text) (ok : Bool)
  | finish
  | appear (name : Text) (qdisc : Option Qdisc)
  | vanish (name : Text)
  deriving DecidableEq

/-- The action is one of the script. -/
def Action.OfScript : Action → Prop
  | .appear _ _ | .vanish _ => False
  | _ => True

/-- A `tc` command that succeeds changes its interface, and one that fails changes nothing. -/
def onDevice (env : ScriptEnv) (word : Text) (ok : Bool) (command : Option Hook → Option Hook)
    (interfaces : Interfaces) : Option Interfaces :=
  if ok then
    (env.device word).bind fun name ↦ (command (interfaces name)).map fun hook ↦
      Function.update interfaces name (some hook)
  else some interfaces

def step (env : ScriptEnv) (s : ScriptState) : Action → Option ScriptState
  | .start output => if s.pc = .idle then some ⟨s.interfaces, .next (env.loopWords output)⟩ else none
  | .filterShow word =>
    match s.pc with
    | .next (word' :: rest) =>
      if word = word' then
        some ⟨s.interfaces,
          if grep txStatsSectionName
            (tcFilterShow env.listing ((env.device word).bind s.interfaces)) = []
          then .qdisc word rest else .next rest⟩
      else none
    | _ => none
  | .qdiscAdd word ok =>
    match s.pc with
    | .qdisc word' rest =>
      if word = word' then
        (onDevice env word ok tcQdiscAdd s.interfaces).map (⟨·, .filter word rest⟩)
      else none
    | _ => none
  | .filterAdd word ok =>
    match s.pc with
    | .filter word' rest =>
      if word = word' then
        (onDevice env word ok (tcFilterAdd txStatsProgramName txStatsSectionName)
          s.interfaces).map (⟨·, .next rest⟩)
      else none
    | _ => none
  | .finish => if s.pc = .next [] then some ⟨s.interfaces, .idle⟩ else none
  | .appear name qdisc =>
    if s.interfaces name = none then
      some ⟨Function.update s.interfaces name (some ⟨qdisc, [], fun _ ↦ rfl⟩), s.pc⟩
    else none
  | .vanish name => some ⟨Function.update s.interfaces name none, s.pc⟩

/-- The line of `ip` for an interface.  The kernel allows no blank in a name. -/
structure Lists (line name : Text) : Prop where
  plain : Plain name
  fields : ∃ index tail, Plain index ∧ line = index ++ ": ".toList ++ name ++ '@' :: tail

/-- No interface has two statistics filters. -/
def AtMostOne (env : ScriptEnv) (interfaces : Interfaces) : Prop :=
  ∀ name hook, interfaces name = some hook → (env.stats hook).length ≤ 1

/-- Every filter is still on its interface. -/
def Keeps (interfaces interfaces' : Interfaces) : Prop :=
  ∀ name hook, interfaces name = some hook →
    ∃ hook', interfaces' name = some hook' ∧ hook.ingress <+: hook'.ingress

/-- A run from this state leaves one statistics filter on this interface, if `ip` lists it with a
`cni-` namespace, it stays in place during the run and its `tc filter add` does not fail. -/
def Converges (env : ScriptEnv) (s : ScriptState) (name : Text) : Prop :=
  ∀ output during s', s.interfaces name ≠ none →
    (∃ line ∈ output, contains "cni-".toList line = true ∧ Lists line name) →
    Run.run (step env) s (.start output :: during) = some s' → s'.pc = .idle →
    (∀ other, .start other ∉ during) → .vanish name ∉ during → .filterAdd name false ∉ during →
    ∃ hook, s'.interfaces name = some hook ∧ (env.stats hook).length = 1

variable {env : ScriptEnv} {s s' : ScriptState}

/-! ## What a command changes -/

theorem onDevice_eq_some {word : Text} {ok : Bool} {command : Option Hook → Option Hook}
    {interfaces interfaces' : Interfaces} :
    onDevice env word ok command interfaces = some interfaces' ↔
      (ok = false ∧ interfaces' = interfaces) ∨
      (ok = true ∧ ∃ name hook, env.device word = some name ∧ command (interfaces name) = some hook ∧
        interfaces' = Function.update interfaces name (some hook)) := by
  cases ok with
  | false => simp [onDevice, eq_comm]
  | true =>
    simp only [onDevice, if_true, Option.bind_eq_some_iff, Option.map_eq_some_iff,
      Bool.true_eq_false, false_and, false_or, true_and]
    constructor
    · rintro ⟨name, hname, hook, hhook, hupdate⟩
      exact ⟨name, hook, hname, hhook, hupdate.symm⟩
    · rintro ⟨name, hook, hname, hhook, hupdate⟩
      exact ⟨name, hname, hook, hhook, hupdate.symm⟩

theorem stats_attach {hook hook' : Hook}
    (h : hook'.ingress = hook.ingress ++ [.bpf txStatsProgramName txStatsSectionName]) :
    env.stats hook' = env.stats hook ++ [.bpf txStatsProgramName txStatsSectionName] :=
  shown_of_ingress env.listing h

theorem stats_congr {hook hook' : Hook} (h : hook'.ingress = hook.ingress) :
    env.stats hook' = env.stats hook := by
  rw [ScriptEnv.stats, ScriptEnv.stats, Hook.shown, Hook.shown, h]

/-- Replacing one interface keeps what holds of all. -/
theorem forall_update {P : Text → Hook → Prop} {interfaces : Interfaces} {name : Text}
    {replacement : Option Hook} (h : ∀ other hook, interfaces other = some hook → P other hook)
    (hnew : ∀ hook ∈ replacement, P name hook) :
    ∀ other hook, Function.update interfaces name replacement other = some hook → P other hook := by
  intro other hook hhook
  by_cases hother : other = name
  · rw [hother, Function.update_self] at hhook
    rw [hother]
    exact hnew hook hhook
  · rw [Function.update_of_ne hother] at hhook
    exact h other hook hhook

/-! ## At most one filter -/

/-- Before an `add` the interface that it is for has no statistics filter. -/
structure Inv (env : ScriptEnv) (s : ScriptState) : Prop where
  one : AtMostOne env s.interfaces
  clear : ∀ word rest, s.pc = .qdisc word rest ∨ s.pc = .filter word rest →
    ∀ name ∈ env.device word, ∀ hook ∈ s.interfaces name, env.stats hook = []

theorem step_start {output : List Text} :
    step env s (.start output) = some s' ↔
      s.pc = .idle ∧ s' = ⟨s.interfaces, .next (env.loopWords output)⟩ := by
  rw [step, Option.ite_none_right_eq_some, Option.some.injEq, eq_comm (a := s')]

theorem step_finish :
    step env s .finish = some s' ↔ s.pc = .next [] ∧ s' = ⟨s.interfaces, .idle⟩ := by
  rw [step, Option.ite_none_right_eq_some, Option.some.injEq, eq_comm (a := s')]

theorem step_appear {name : Text} {qdisc : Option Qdisc} :
    step env s (.appear name qdisc) = some s' ↔ s.interfaces name = none ∧
      s' = ⟨Function.update s.interfaces name (some ⟨qdisc, [], fun _ ↦ rfl⟩), s.pc⟩ := by
  rw [step, Option.ite_none_right_eq_some, Option.some.injEq, eq_comm (a := s')]

theorem step_filterShow {word : Text} :
    step env s (.filterShow word) = some s' ↔ ∃ rest, s.pc = .next (word :: rest) ∧
      s' = ⟨s.interfaces, if grep txStatsSectionName
        (tcFilterShow env.listing ((env.device word).bind s.interfaces)) = []
        then .qdisc word rest else .next rest⟩ := by
  rw [step]
  cases hpc : s.pc with
  | next words =>
    cases words with
    | nil => simp
    | cons word' rest =>
      by_cases heq : word = word'
      · simp only [← heq, if_true, Option.some.injEq, Pc.next.injEq, List.cons.injEq, true_and]
        exact ⟨fun h ↦ ⟨rest, rfl, h.symm⟩, fun ⟨rest', hrest, h⟩ ↦ hrest ▸ h.symm⟩
      · simp only [if_neg heq, reduceCtorEq, Pc.next.injEq, List.cons.injEq, Ne.symm heq, false_and,
          exists_false]
  | _ => simp

theorem step_qdiscAdd {word : Text} {ok : Bool} :
    step env s (.qdiscAdd word ok) = some s' ↔ ∃ rest interfaces, s.pc = .qdisc word rest ∧
      onDevice env word ok tcQdiscAdd s.interfaces = some interfaces ∧
      s' = ⟨interfaces, .filter word rest⟩ := by
  rw [step]
  cases hpc : s.pc with
  | qdisc word' rest =>
    by_cases heq : word = word'
    · simp [← heq, eq_comm]
    · simp [heq, Ne.symm heq]
  | _ => simp

theorem step_filterAdd {word : Text} {ok : Bool} :
    step env s (.filterAdd word ok) = some s' ↔ ∃ rest interfaces, s.pc = .filter word rest ∧
      onDevice env word ok (tcFilterAdd txStatsProgramName txStatsSectionName) s.interfaces =
        some interfaces ∧ s' = ⟨interfaces, .next rest⟩ := by
  rw [step]
  cases hpc : s.pc with
  | filter word' rest =>
    by_cases heq : word = word'
    · simp [← heq, eq_comm]
    · simp [heq, Ne.symm heq]
  | _ => simp

/-- An interface may be replaced by one without statistics filters, or by none. -/
theorem Inv.replace (h : Inv env s) (name : Text) {replacement : Option Hook}
    (hempty : ∀ hook ∈ replacement, env.stats hook = []) :
    Inv env ⟨Function.update s.interfaces name replacement, s.pc⟩ where
  one := forall_update h.one fun hook hhook ↦ by simp [hempty hook hhook]
  clear := by
    intro word rest hpc name' hname' hook hhook
    have hlookup : Function.update s.interfaces name replacement name' = some hook := hhook
    exact forall_update (P := fun other hook ↦ other ∈ env.device word → env.stats hook = [])
      (fun other hook hhook hother ↦ h.clear word rest hpc other hother hook hhook)
      (fun hook hhook _ ↦ hempty hook hhook) name' hook hlookup hname'

/-- The qdisc brings no filter along. -/
theorem Inv.qdiscAdd (h : Inv env s) {word : Text} {rest : List Text} {ok : Bool}
    {interfaces : Interfaces} (hpc : s.pc = .qdisc word rest)
    (hdevice : onDevice env word ok tcQdiscAdd s.interfaces = some interfaces) :
    Inv env ⟨interfaces, .filter word rest⟩ := by
  have hclear := h.clear word rest (.inl hpc)
  have hword : ∀ word' rest', (⟨interfaces, .filter word rest⟩ : ScriptState).pc = .qdisc word' rest' ∨
      (⟨interfaces, .filter word rest⟩ : ScriptState).pc = .filter word' rest' → word' = word := by
    rintro word' rest' (heq | heq) <;> cases heq
    rfl
  rcases onDevice_eq_some.mp hdevice with ⟨-, rfl⟩ | ⟨-, name, hook, hname, hadd, rfl⟩
  · refine ⟨h.one, fun word' rest' hpc' ↦ ?_⟩
    rw [hword word' rest' hpc']
    exact hclear
  · obtain ⟨old, hold, -, -, hingress⟩ := tcQdiscAdd_eq_some.mp hadd
    have hstats : env.stats hook = env.stats old := stats_congr hingress
    refine ⟨forall_update h.one ?_, fun word' rest' hpc' ↦ ?_⟩
    · rintro _ ⟨⟩
      rw [hstats]
      exact h.one name old hold
    · rw [hword word' rest' hpc']
      intro name' hname' hook' hhook'
      obtain rfl : name' = name := Option.some.inj (hname'.symm.trans hname)
      rw [Option.mem_def] at hhook'
      dsimp only at hhook'
      rw [Function.update_self] at hhook'
      cases hhook'
      rw [hstats]
      exact hclear name' hname' old hold

theorem inv_step {a : Action} (h : Inv env s) (hstep : step env s a = some s') : Inv env s' := by
  cases a with
  | start output =>
    obtain ⟨-, rfl⟩ := step_start.mp hstep
    exact ⟨h.one, by simp⟩
  | filterShow word =>
    obtain ⟨rest, hpc, rfl⟩ := step_filterShow.mp hstep
    refine ⟨h.one, fun word' rest' hpc' name hname hook hhook ↦ ?_⟩
    dsimp only at hpc' hhook
    split at hpc'
    · next hgrep =>
      have hword : word' = word := by
        rcases hpc' with heq | heq
        · cases heq
          rfl
        · cases heq
      have hdevice : (env.device word).bind s.interfaces = some hook := by
        rw [← hword, hname, Option.bind_some]
        exact hhook
      rw [hdevice, grep_tcFilterShow_eq_nil] at hgrep
      exact hgrep
    · rcases hpc' with heq | heq <;> cases heq
  | qdiscAdd word ok =>
    obtain ⟨rest, interfaces, hpc, hdevice, rfl⟩ := step_qdiscAdd.mp hstep
    exact h.qdiscAdd hpc hdevice
  | filterAdd word ok =>
    obtain ⟨rest, interfaces, hpc, hdevice, rfl⟩ := step_filterAdd.mp hstep
    refine ⟨?_, by simp⟩
    rcases onDevice_eq_some.mp hdevice with ⟨-, rfl⟩ | ⟨-, name, hook, hname, hadd, rfl⟩
    · exact h.one
    · obtain ⟨old, hold, -, -, hingress⟩ := tcFilterAdd_eq_some.mp hadd
      refine forall_update h.one ?_
      rintro _ ⟨⟩
      rw [stats_attach hingress, h.clear word rest (.inr hpc) name hname old hold]
      exact le_refl 1
  | finish =>
    obtain ⟨-, rfl⟩ := step_finish.mp hstep
    exact ⟨h.one, by simp⟩
  | appear name qdisc =>
    obtain ⟨-, rfl⟩ := step_appear.mp hstep
    exact h.replace name (by rintro _ ⟨⟩; rfl)
  | vanish name =>
    cases hstep
    exact h.replace name (by simp)

/-! ## No filter is removed -/

theorem keeps_refl (interfaces : Interfaces) : Keeps interfaces interfaces :=
  fun _ hook hhook ↦ ⟨hook, hhook, List.prefix_refl _⟩

theorem keeps_onDevice {word : Text} {ok : Bool} {command : Option Hook → Option Hook}
    (hcommand : ∀ old hook, command (some old) = some hook → old.ingress <+: hook.ingress)
    {interfaces interfaces' : Interfaces}
    (h : onDevice env word ok command interfaces = some interfaces') :
    Keeps interfaces interfaces' := by
  rcases onDevice_eq_some.mp h with ⟨-, rfl⟩ | ⟨-, name, hook, -, hadd, rfl⟩
  · exact keeps_refl _
  · intro other old hold
    by_cases hother : other = name
    · subst hother
      rw [hold] at hadd
      exact ⟨hook, Function.update_self .., hcommand old hook hadd⟩
    · exact ⟨old, (Function.update_of_ne hother ..).trans hold, List.prefix_refl _⟩

/-- A command of the script leaves every filter where it is. -/
theorem keeps_step {a : Action} (ha : a.OfScript) (hstep : step env s a = some s') :
    Keeps s.interfaces s'.interfaces := by
  cases a with
  | start output =>
    obtain ⟨-, rfl⟩ := step_start.mp hstep
    exact keeps_refl _
  | filterShow word =>
    obtain ⟨rest, -, rfl⟩ := step_filterShow.mp hstep
    exact keeps_refl _
  | qdiscAdd word ok =>
    obtain ⟨rest, interfaces, -, hdevice, rfl⟩ := step_qdiscAdd.mp hstep
    refine keeps_onDevice (fun old hook hadd ↦ ?_) hdevice
    obtain ⟨_, ⟨⟩, -, -, hingress⟩ := tcQdiscAdd_eq_some.mp hadd
    rw [hingress]
  | filterAdd word ok =>
    obtain ⟨rest, interfaces, -, hdevice, rfl⟩ := step_filterAdd.mp hstep
    refine keeps_onDevice (fun old hook hadd ↦ ?_) hdevice
    obtain ⟨_, ⟨⟩, -, -, hingress⟩ := tcFilterAdd_eq_some.mp hadd
    rw [hingress]
    exact List.prefix_append _ _
  | finish =>
    obtain ⟨-, rfl⟩ := step_finish.mp hstep
    exact keeps_refl _
  | appear name qdisc => exact ha.elim
  | vanish name => exact ha.elim

/-! ## A run reaches every listed interface -/

/-- The script has still to look at the word, or is between the look and the `add`. -/
def Pc.Pending (word : Text) : Pc → Prop
  | .idle => False
  | .next rest => word ∈ rest
  | .qdisc word' rest | .filter word' rest => word = word' ∨ word ∈ rest

/-- The interface is there, and has a statistics filter or will be looked at. -/
def Served (env : ScriptEnv) (name : Text) (s : ScriptState) : Prop :=
  ∃ hook, s.interfaces name = some hook ∧ (env.stats hook ≠ [] ∨ s.pc.Pending name)

/-- An interface that is not removed keeps its filters in every step. -/
theorem prefix_step {name : Text} {a : Action} {hook : Hook} (hvanish : a ≠ .vanish name)
    (hhook : s.interfaces name = some hook) (hstep : step env s a = some s') :
    ∃ hook', s'.interfaces name = some hook' ∧ hook.ingress <+: hook'.ingress := by
  cases a with
  | appear other qdisc =>
    obtain ⟨hnone, rfl⟩ := step_appear.mp hstep
    have hne : name ≠ other := by
      rintro rfl
      rw [hnone] at hhook
      cases hhook
    exact ⟨hook, (Function.update_of_ne hne ..).trans hhook, List.prefix_refl _⟩
  | vanish other =>
    cases hstep
    have hne : name ≠ other := fun heq ↦ hvanish (heq ▸ rfl)
    exact ⟨hook, (Function.update_of_ne hne ..).trans hhook, List.prefix_refl _⟩
  | _ => exact keeps_step (by exact trivial) hstep name hook hhook

theorem stats_ne_nil_of_front {hook hook' : Hook} (h : hook.ingress <+: hook'.ingress)
    (hne : env.stats hook ≠ []) : env.stats hook' ≠ [] := by
  obtain ⟨more, hmore⟩ := h
  rw [ScriptEnv.stats, Hook.shown] at hne ⊢
  rw [← hmore, List.filter_append]
  exact List.append_ne_nil_of_left_ne_nil hne _

/-- A step that neither removes the interface nor fails to add its filter keeps it served. -/
theorem served_step {name : Text} (hname : env.device name = some name) {a : Action}
    (hstart : ∀ output, a ≠ .start output) (hvanish : a ≠ .vanish name)
    (hadd : a ≠ .filterAdd name false) (h : Served env name s) (hstep : step env s a = some s') :
    Served env name s' := by
  obtain ⟨hook, hhook, hserved⟩ := h
  obtain ⟨hook', hhook', hfront⟩ := prefix_step hvanish hhook hstep
  refine ⟨hook', hhook', ?_⟩
  rcases hserved with hstats | hpending
  · exact .inl (stats_ne_nil_of_front hfront hstats)
  cases a with
  | start output => exact absurd rfl (hstart output)
  | filterShow word =>
    obtain ⟨rest, hpc, rfl⟩ := step_filterShow.mp hstep
    rw [hpc] at hpending
    by_cases hgrep : grep txStatsSectionName
        (tcFilterShow env.listing ((env.device word).bind s.interfaces)) = []
    · right
      rw [if_pos hgrep]
      exact List.mem_cons.mp hpending
    · rw [if_neg hgrep]
      rcases List.mem_cons.mp hpending with heq | hrest
      · left
        rw [← heq, hname, Option.bind_some, hhook, grep_tcFilterShow_eq_nil] at hgrep
        exact stats_ne_nil_of_front hfront hgrep
      · exact .inr hrest
  | qdiscAdd word ok =>
    obtain ⟨rest, interfaces, hpc, -, rfl⟩ := step_qdiscAdd.mp hstep
    rw [hpc] at hpending
    exact .inr hpending
  | filterAdd word ok =>
    obtain ⟨rest, interfaces, hpc, hdevice, rfl⟩ := step_filterAdd.mp hstep
    rw [hpc] at hpending
    rcases hpending with heq | hrest
    · left
      subst heq
      rcases onDevice_eq_some.mp hdevice with ⟨rfl, -⟩ | ⟨-, device, added, hdev, hresult, rfl⟩
      · exact absurd rfl hadd
      · obtain rfl : name = device := Option.some.inj (hname.symm.trans hdev)
        obtain ⟨old, -, -, -, hingress⟩ := tcFilterAdd_eq_some.mp hresult
        dsimp only at hhook'
        rw [Function.update_self, Option.some.injEq] at hhook'
        rw [← hhook', stats_attach hingress]
        exact List.concat_ne_nil _ _
    · exact .inr hrest
  | finish =>
    obtain ⟨hpc, rfl⟩ := step_finish.mp hstep
    rw [hpc] at hpending
    cases hpending
  | appear other qdisc =>
    obtain ⟨-, rfl⟩ := step_appear.mp hstep
    exact .inr hpending
  | vanish other =>
    cases hstep
    exact .inr hpending

theorem served_run {name : Text} (hname : env.device name = some name) {during : List Action}
    (hstart : ∀ output, .start output ∉ during) (hvanish : .vanish name ∉ during)
    (hadd : .filterAdd name false ∉ during) (h : Served env name s)
    (hrun : Run.run (step env) s during = some s') : Served env name s' := by
  induction during generalizing s with
  | nil =>
    rw [Run.run_nil, Option.some.injEq] at hrun
    rw [← hrun]
    exact h
  | cons a during ih =>
    obtain ⟨t, hstep, hrest⟩ := Option.bind_eq_some_iff.mp hrun
    rw [List.mem_cons, not_or] at hvanish hadd
    refine ih (fun output hmem ↦ hstart output (List.mem_cons_of_mem _ hmem)) hvanish.2 hadd.2 ?_ hrest
    exact served_step hname (fun output heq ↦ hstart output (heq ▸ List.mem_cons_self))
      (Ne.symm hvanish.1) (Ne.symm hadd.1) h hstep

/-! ## The text that names the interfaces -/

/-- The first field of a text that starts with a field begins with it. -/
theorem words_plain_append {name : Text} (hname : Plain name) (tail : Text) :
    ∃ more rest, words (name ++ tail) = (name ++ more) :: rest ∧ more <+: tail := by
  set more := tail.takeWhile fun c ↦ !isBlank c with hmore
  have hplain : Plain (name ++ more) := by
    refine ⟨fun h ↦ hname.ne_nil (List.append_eq_nil_iff.mp h).1, fun c hc ↦ ?_⟩
    rcases List.mem_append.mp hc with h | h
    · exact hname.no_blank c h
    · simpa using List.mem_takeWhile_imp h
  have hsplit : more ++ tail.dropWhile (fun c ↦ !isBlank c) = tail :=
    List.takeWhile_append_dropWhile
  cases hrest : tail.dropWhile fun c ↦ !isBlank c with
  | nil =>
    rw [hrest, List.append_nil] at hsplit
    refine ⟨more, [], ?_, List.takeWhile_prefix _⟩
    rw [← hsplit]
    exact hplain.words
  | cons blank after =>
    have hblank : isBlank blank = true := by
      have hhead := List.head_dropWhile_not (fun c ↦ !isBlank c) (l := tail)
        (by rw [hrest]; exact List.cons_ne_nil _ _)
      simpa [hrest] using hhead
    refine ⟨more, words after, ?_, List.takeWhile_prefix _⟩
    rw [← hsplit, hrest, ← List.append_assoc, words_append_blank _ _ hblank, hplain.words,
      List.singleton_append]

/-- The field before the `@` is the name up to the first `@` in it. -/
theorem nameField_eq_takeWhile {line name : Text} (h : Lists line name) :
    ScriptEnv.nameField line = name.takeWhile (· ≠ '@') := by
  obtain ⟨index, tail, hindex, rfl⟩ := h.fields
  have hfirst : Plain (index ++ [':']) := by
    refine ⟨by simp, fun c hc ↦ ?_⟩
    rcases List.mem_append.mp hc with hmem | hmem
    · exact hindex.no_blank c hmem
    · rw [List.mem_singleton.mp hmem]
      decide
  have hsecond : Plain (name ++ ['@']) := by
    refine ⟨by simp, fun c hc ↦ ?_⟩
    rcases List.mem_append.mp hc with hmem | hmem
    · exact h.plain.no_blank c hmem
    · rw [List.mem_singleton.mp hmem]
      decide
  obtain ⟨more, rest, hwords, -⟩ := words_plain_append hsecond tail
  have hline : index ++ ": ".toList ++ name ++ '@' :: tail =
      (index ++ [':']) ++ ' ' :: (name ++ ['@'] ++ tail) := by
    simp
  have hcut : ∀ text : Text,
      (text ++ '@' :: more).takeWhile (· ≠ '@') = text.takeWhile (· ≠ '@') := by
    intro text
    induction text with
    | nil => rfl
    | cons c text ih => rw [List.cons_append, List.takeWhile_cons, List.takeWhile_cons, ih]
  rw [ScriptEnv.nameField, hline, words_append_blank _ _ rfl, hfirst.words, hwords,
    List.singleton_append, List.getElem?_cons_succ, List.getElem?_cons_zero, Option.getD_some,
    List.append_assoc, List.singleton_append, hcut]

/-- It is the whole name, unless the name has an `@` itself. -/
theorem nameField_of_lists {line name : Text} (h : Lists line name) (hat : '@' ∉ name) :
    ScriptEnv.nameField line = name := by
  have hall : ∀ c ∈ name, decide (c ≠ '@') = true := by
    intro c hc
    apply decide_eq_true
    rintro rfl
    exact hat hc
  rw [nameField_eq_takeWhile h, List.takeWhile_eq_self_iff]
  exact hall

/-- A listed interface is a word of the loop, if its name survives the text processing. -/
theorem mem_loopWords {output : List Text} {line name : Text} (hline : line ∈ output)
    (hcni : contains "cni-".toList line = true) (h : Lists line name) (hat : '@' ∉ name)
    (hglob : env.glob name = [name]) : name ∈ env.loopWords output := by
  have hgrep : line ∈ grep "cni-".toList output := List.mem_filter.mpr ⟨hline, hcni⟩
  have hfield : name ∈ (grep "cni-".toList output).map ScriptEnv.nameField :=
    List.mem_map.mpr ⟨line, hgrep, nameField_of_lists h hat⟩
  rw [ScriptEnv.loopWords, ScriptEnv.expand, words_commandSubst, words_stdout, List.mem_flatMap]
  refine ⟨name, List.mem_flatMap.mpr ⟨name, hfield, ?_⟩, ?_⟩
  · rw [h.plain.words]
    exact List.mem_cons_self
  · rw [hglob]
    exact List.mem_cons_self

theorem device_eq_self {name : Text} (hplain : Plain name) (hglob : env.glob name = [name]) :
    env.device name = some name := by
  rw [ScriptEnv.device, ScriptEnv.expand, hplain.words, List.flatMap_singleton, hglob]

/-! ## Every sequence of runs -/

theorem inv_run {history : List Action} (h : Inv env s)
    (hrun : Run.run (step env) s history = some s') : Inv env s' :=
  Run.invariant (I := fun _ s ↦ Inv env s) h (fun _ _ _ _ hs hstep ↦ inv_step hs hstep) hrun

/-- From interfaces with at most one statistics filter each, in any sequence of runs: no interface
ever has two, no command of the script removes a filter, and every run that starts leaves one filter
on each listed interface whose name has no `@` and is no pattern for a file. -/
theorem attach_converges (env : ScriptEnv) (interfaces : Interfaces)
    (hone : AtMostOne env interfaces) (history : List Action) (s : ScriptState)
    (hrun : Run.run (step env) ⟨interfaces, .idle⟩ history = some s) :
    AtMostOne env s.interfaces ∧
      (∀ a s', a.OfScript → step env s a = some s' → Keeps s.interfaces s'.interfaces) ∧
      ∀ name, '@' ∉ name → env.glob name = [name] → Converges env s name := by
  have hinit : Inv env ⟨interfaces, .idle⟩ := ⟨hone, by simp⟩
  have hinv := inv_run hinit hrun
  refine ⟨hinv.one, fun a s' ha hstep ↦ keeps_step ha hstep, fun name hat hglob ↦ ?_⟩
  rintro output during s' hexists ⟨line, hline, hcni, hlists⟩ hduring hidle hstart hvanish hadd
  obtain ⟨hook, hhook⟩ := Option.ne_none_iff_exists'.mp hexists
  obtain ⟨t, ht, hrest⟩ := Option.bind_eq_some_iff.mp hduring
  have hserved : Served env name t := by
    obtain ⟨-, rfl⟩ := step_start.mp ht
    exact ⟨hook, hhook, .inr (mem_loopWords hline hcni hlists hat hglob)⟩
  obtain ⟨hook', hhook', hserved'⟩ :=
    served_run (device_eq_self hlists.plain hglob) hstart hvanish hadd hserved hrest
  rw [hidle] at hserved'
  have hne : env.stats hook' ≠ [] := hserved'.resolve_right id
  have hle := (inv_run hinv hduring).one name hook' hhook'
  exact ⟨hook', hhook', le_antisymm hle (List.length_pos_of_ne_nil hne)⟩

/-! ## The demo -/

/-- One interface without a qdisc. -/
def oneInterface (name : Text) : Interfaces := fun other ↦
  if other = name then some .bare else none

/-- Its line in the output of `ip`. -/
def ipLine (name : Text) : Text :=
  "5".toList ++ ": ".toList ++ name ++ '@' :: "if2: <UP> link-netns cni-1".toList

def demoScriptEnv : ScriptEnv := ⟨.demo, fun field ↦ [field]⟩

/-- The file `bin` is in the working directory. -/
def globScriptEnv : ScriptEnv :=
  ⟨.demo, fun field ↦ if field = "b*".toList then ["bin".toList] else [field]⟩

theorem lists_ipLine {name : Text} (h : Plain name) : Lists (ipLine name) name :=
  ⟨h, "5".toList, _, ⟨by decide, by decide⟩, rfl⟩

theorem contains_ipLine (name : Text) : contains "cni-".toList (ipLine name) = true := by
  have hsuffix : "cni-".toList <:+: "if2: <UP> link-netns cni-1".toList := by decide
  rw [contains_eq_true]
  exact List.infix_append_of_infix_right (List.infix_cons hsuffix)

theorem atMostOne_oneInterface (env : ScriptEnv) (name : Text) : AtMostOne env (oneInterface name) := by
  intro other hook hhook
  rw [oneInterface] at hhook
  split at hhook
  · cases hhook
    exact Nat.zero_le 1
  · cases hhook

/-- The first run cannot add the filter; the second one does. -/
theorem attach_converges_demo :
    ∃ s s', Run.run (step demoScriptEnv) ⟨oneInterface "veth0".toList, .idle⟩
        [.start [ipLine "veth0".toList], .filterShow "veth0".toList, .qdiscAdd "veth0".toList true,
          .filterAdd "veth0".toList false, .finish] = some s ∧
      Run.run (step demoScriptEnv) s
        [.start [ipLine "veth0".toList], .filterShow "veth0".toList, .qdiscAdd "veth0".toList false,
          .filterAdd "veth0".toList true, .finish] = some s' ∧
      ∃ hook, s'.interfaces "veth0".toList = some hook ∧ (demoScriptEnv.stats hook).length = 1 := by
  set first : List Action := [.start [ipLine "veth0".toList], .filterShow "veth0".toList,
    .qdiscAdd "veth0".toList true, .filterAdd "veth0".toList false, .finish] with hfirst
  set during : List Action := [.filterShow "veth0".toList, .qdiscAdd "veth0".toList false,
    .filterAdd "veth0".toList true, .finish] with hduring
  have hruns : (Run.run (step demoScriptEnv) ⟨oneInterface "veth0".toList, .idle⟩
      (first ++ .start [ipLine "veth0".toList] :: during)).map ScriptState.pc = some .idle := by
    rw [hfirst, hduring]
    decide +kernel
  have hpresent : (Run.run (step demoScriptEnv) ⟨oneInterface "veth0".toList, .idle⟩ first).bind
      (fun s ↦ s.interfaces "veth0".toList) ≠ none := by
    rw [hfirst]
    decide +kernel
  obtain ⟨s', hs', hidle⟩ := Option.map_eq_some_iff.mp hruns
  rw [Run.run_append, Option.bind_eq_some_iff] at hs'
  obtain ⟨s, hs, hs'⟩ := hs'
  rw [hs, Option.bind_some] at hpresent
  have hname : Plain "veth0".toList := ⟨by decide, by decide⟩
  refine ⟨s, s', hs, hs', ?_⟩
  exact (attach_converges demoScriptEnv _ (atMostOne_oneInterface _ _) first s hs).2.2 "veth0".toList
    (by decide) rfl [ipLine "veth0".toList] during s' hpresent
    ⟨_, List.mem_cons_self, contains_ipLine _, lists_ipLine hname⟩ hs' hidle
    (by simp [hduring]) (by simp [hduring]) (by simp [hduring])

/-- A run that takes another word for the interface's name leaves the interface as it is. -/
theorem not_converges_of_word {env : ScriptEnv} {name : Text} (word : Text) (hplain : Plain name)
    (hwords : env.loopWords [ipLine name] = [word]) (hne : word ≠ name)
    (hdevice : env.device word = some word) : ¬ Converges env ⟨oneInterface name, .idle⟩ name := by
  intro h
  have hself : oneInterface name name = some .bare := if_pos rfl
  have hother : oneInterface name word = none := if_neg hne
  have hrun : Run.run (step env) ⟨oneInterface name, .idle⟩
      (.start [ipLine name] :: [.filterShow word, .qdiscAdd word false, .filterAdd word false,
        .finish]) = some ⟨oneInterface name, .idle⟩ := by
    simp [step, hwords, hdevice, hother, tcFilterShow, grep, onDevice]
  have hexists : oneInterface name name ≠ none := by
    rw [hself]
    exact Option.some_ne_none _
  obtain ⟨hook, hhook, hlength⟩ := h [ipLine name] _ _ hexists
    ⟨_, List.mem_cons_self, contains_ipLine _, lists_ipLine hplain⟩ hrun rfl (by simp) (by simp)
    (by simp [Ne.symm hne])
  have hempty : hook = .bare := Option.some.inj (hhook.symm.trans hself)
  rw [hempty] at hlength
  cases hlength

/-- An interface named `a@b` is taken for one named `a`, and one named `b*` for the file `bin`. -/
theorem attach_converges_counterexample :
    ¬ Converges demoScriptEnv ⟨oneInterface "a@b".toList, .idle⟩ "a@b".toList ∧
      ¬ Converges globScriptEnv ⟨oneInterface "b*".toList, .idle⟩ "b*".toList := by
  constructor
  · exact not_converges_of_word "a".toList ⟨by decide, by decide⟩ (by decide +kernel) (by decide)
      (by decide +kernel)
  · exact not_converges_of_word "bin".toList ⟨by decide, by decide⟩ (by decide +kernel) (by decide)
      (by decide +kernel)

end EbpfPlayground.NetStats
