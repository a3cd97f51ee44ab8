import EbpfPlayground.Kube.Watcher
import Mathlib.Data.List.AList

/-!
# The reflector of kube-runtime

`reflector` keeps a cache of the watched objects beside the watcher's stream.  The cache is a hash
map from object references to objects; its order is not used.  It is compared with the collection
of the server: each event does to the cache what the change it reports did to the collection, and a
list replaces the cache by the collection it was taken of.
-/

namespace EbpfPlayground.Kube

open ChangeLog

/-- `ObjectRef`, of one statically known kind; the fields that comparisons ignore are left out. -/
structure ObjectRef where
  name : Text
  ns : Option Text
  deriving DecidableEq

variable {K : Type*} [Resource K]

/-- `ObjectRef::from_obj`; `none` where `name_unchecked` panics. -/
def ObjectRef.fromObj (obj : K) : Option ObjectRef :=
  (Resource.metadata obj).name.map fun name ↦ ⟨name, (Resource.metadata obj).ns⟩

abbrev Store (K : Type*) := AList fun _ : ObjectRef ↦ K

namespace Store

/-- The new entries of a list, the later ones over the earlier ones. -/
def collect : Store K → List K → Option (Store K)
  | store, [] => some store
  | store, obj :: objs =>
    (ObjectRef.fromObj obj).bind fun key ↦ collect (store.insert key obj) objs

/-- `Writer::apply_watcher_event`. -/
def applyWatcherEvent (store : Store K) : Event K → Option (Store K)
  | .applied obj => (ObjectRef.fromObj obj).map fun key ↦ store.insert key obj
  | .deleted obj => (ObjectRef.fromObj obj).map fun key ↦ store.erase key
  | .restarted newObjs => collect ∅ newObjs

/-- `Store::get`. -/
def get (store : Store K) (key : ObjectRef) : Option K :=
  match store.lookup key with
  | some obj => some obj
  | none => store.lookup { key with ns := none }

/-- `Store::state`, in some order. -/
def state (store : Store K) : List K := store.entries.map Sigma.snd

end Store

/-- `reflector` on the items that have come so far; `none` where the writer has panicked. -/
def reflector (store : Store K) : List (Item K) → Option (Store K)
  | [] => some store
  | .ok event :: items => (store.applyWatcherEvent event).bind fun store' ↦ reflector store' items
  | .error _ :: items => reflector store items

theorem reflector_append (store : Store K) (first second : List (Item K)) :
    reflector store (first ++ second) =
      (reflector store first).bind fun store' ↦ reflector store' second := by
  induction first generalizing store with
  | nil => rfl
  | cons item first ih =>
    cases item with
    | error err => exact ih store
    | ok event =>
      simp only [List.cons_append, reflector, Option.bind_assoc]
      exact congrArg _ (funext fun store' ↦ ih store')

/-- The event that reports a change. -/
def Event.ofChange : Change K → Event K
  | .put obj => .applied obj
  | .delete obj => .deleted obj

/-- The cache holds the collection. -/
def Mirrors (store : Store K) (collection : Collection (Option ObjectRef) K) : Prop :=
  ∀ key, store.lookup key = collection (some key)

theorem Mirrors.applyWatcherEvent {store : Store K} {collection : Collection (Option ObjectRef) K}
    (h : Mirrors store collection) {change : Change K}
    (hname : (ObjectRef.fromObj change.object).isSome) :
    ∃ store', store.applyWatcherEvent (.ofChange change) = some store' ∧
      Mirrors store' (change.apply ObjectRef.fromObj collection) := by
  obtain ⟨key, hkey⟩ := Option.isSome_iff_exists.mp hname
  cases change with
  | put obj =>
    replace hkey : ObjectRef.fromObj obj = some key := hkey
    refine ⟨store.insert key obj, by simp [Store.applyWatcherEvent, Event.ofChange, hkey], ?_⟩
    intro other
    by_cases hother : other = key
    · subst hother
      simp [Change.apply, hkey]
    · simpa [Change.apply, hkey, hother] using h other
  | delete obj =>
    replace hkey : ObjectRef.fromObj obj = some key := hkey
    refine ⟨store.erase key, by simp [Store.applyWatcherEvent, Event.ofChange, hkey], ?_⟩
    intro other
    by_cases hother : other = key
    · subst hother
      simp [Change.apply, hkey]
    · simpa [Change.apply, hkey, hother] using h other

/-- What `collect` finds under a key: an object of the list, or what was there before. -/
theorem collect_lookup (store : Store K) {objs : List K}
    (hnames : ∀ obj ∈ objs, (ObjectRef.fromObj obj).isSome) :
    ∃ store', store.collect objs = some store' ∧ ∀ key,
      (∃ obj ∈ objs, ObjectRef.fromObj obj = some key ∧ store'.lookup key = some obj) ∨
        (∀ obj ∈ objs, ObjectRef.fromObj obj ≠ some key) ∧ store'.lookup key = store.lookup key := by
  induction objs generalizing store with
  | nil => exact ⟨store, rfl, fun key ↦ .inr ⟨by simp, rfl⟩⟩
  | cons obj objs ih =>
    obtain ⟨hobj, hobjs⟩ := List.forall_mem_cons.mp hnames
    obtain ⟨key, hkey⟩ := Option.isSome_iff_exists.mp hobj
    obtain ⟨store', hstore', hlookup⟩ := ih (store.insert key obj) hobjs
    refine ⟨store', by simp [Store.collect, hkey, hstore'], fun other ↦ ?_⟩
    rcases hlookup other with ⟨found, hmem, hfound⟩ | ⟨hnone, hsame⟩
    · exact .inl ⟨found, List.mem_cons_of_mem _ hmem, hfound⟩
    by_cases hother : other = key
    · refine .inl ⟨obj, List.mem_cons_self, by rw [hkey, hother], ?_⟩
      rw [hsame, hother, AList.lookup_insert]
    · refine .inr ⟨List.forall_mem_cons.mpr ⟨?_, hnone⟩, ?_⟩
      · rw [hkey]
        exact fun heq ↦ hother (Option.some.inj heq).symm
      · rw [hsame, AList.lookup_insert_ne hother]

/-- A list of the collection makes the cache hold it, whatever the cache was. -/
theorem mirrors_restarted (store : Store K) {collection : Collection (Option ObjectRef) K}
    {objs : List K} (hsnapshot : IsSnapshot ObjectRef.fromObj objs collection)
    (hcollection : ∀ key obj, collection key = some obj → ObjectRef.fromObj obj = key)
    (hnames : ∀ obj ∈ objs, (ObjectRef.fromObj obj).isSome) :
    ∃ store', store.applyWatcherEvent (.restarted objs) = some store' ∧
      Mirrors store' collection := by
  obtain ⟨store', hstore', hlookup⟩ := collect_lookup ∅ hnames
  refine ⟨store', hstore', fun key ↦ ?_⟩
  rcases hlookup key with ⟨obj, hmem, hkey, hfound⟩ | ⟨hnone, hsame⟩
  · rw [hfound, ← hkey]
    exact ((hsnapshot.mem_iff obj).mp hmem).symm
  · rw [hsame, AList.lookup_empty]
    cases hobj : collection (some key) with
    | none => rfl
    | some obj =>
      have hkey := hcollection _ _ hobj
      have hmem := (hsnapshot.mem_iff obj).mpr (by rw [hkey, hobj])
      exact absurd hkey (hnone obj hmem)

/-! ## Reading the cache -/

/-- `state` lists the objects of the collection, each once. -/
theorem Mirrors.isSnapshot_state {store : Store K} {collection : Collection (Option ObjectRef) K}
    (h : Mirrors store collection)
    (hcollection : ∀ key obj, collection key = some obj → ObjectRef.fromObj obj = key)
    (hnamed : collection none = none) : IsSnapshot ObjectRef.fromObj store.state collection := by
  have hentry : ∀ entry ∈ store.entries, collection (some entry.1) = some entry.2 :=
    fun entry hmem ↦ (h entry.1).symm.trans (AList.mem_lookup_iff.mpr hmem)
  refine ⟨?_, fun obj ↦ ?_⟩
  · refine List.Nodup.map_on ?_ store.nodupKeys.nodup
    intro first hfirst second hsecond heq
    have hkey : some first.1 = some second.1 := by
      rw [← hcollection _ _ (hentry first hfirst), ← hcollection _ _ (hentry second hsecond), heq]
    exact Sigma.ext (Option.some.inj hkey) (heq_of_eq heq)
  · rw [Store.state, List.mem_map]
    constructor
    · rintro ⟨entry, hmem, rfl⟩
      rw [hcollection _ _ (hentry entry hmem)]
      exact hentry entry hmem
    · intro hobj
      cases hkey : ObjectRef.fromObj obj with
      | none =>
        rw [hkey, hnamed] at hobj
        cases hobj
      | some key =>
        rw [hkey] at hobj
        exact ⟨⟨key, obj⟩, AList.mem_lookup_iff.mp ((h key).trans hobj), rfl⟩

omit [Resource K] in
/-- Objects in namespaces are found by their own references only. -/
theorem Mirrors.get_namespaced {store : Store K} {collection : Collection (Option ObjectRef) K}
    (h : Mirrors store collection)
    (hscope : ∀ key obj, collection (some key) = some obj → key.ns.isSome) (key : ObjectRef) :
    store.get key = collection (some key) := by
  have hcluster : store.lookup { key with ns := none } = none := by
    rw [h, Option.eq_none_iff_forall_ne_some]
    intro obj hobj
    cases hscope _ obj hobj
  unfold Store.get
  split
  · next obj hobj => rw [← h, hobj]
  · next hnone => rw [hcluster, ← h, hnone]

omit [Resource K] in
/-- Objects of a cluster-scoped kind are found whatever namespace the reference has. -/
theorem Mirrors.get_clusterScoped {store : Store K} {collection : Collection (Option ObjectRef) K}
    (h : Mirrors store collection)
    (hscope : ∀ key obj, collection (some key) = some obj → key.ns = none) (key : ObjectRef) :
    store.get key = collection (some { key with ns := none }) := by
  unfold Store.get
  split
  · next obj hobj =>
    rw [h] at hobj
    rw [← hscope key obj hobj, hobj]
  · exact h _

end EbpfPlayground.Kube
