import Notebook.Container.OwnerTable
import Mathlib.Data.String.Basic

/-!
# The class factories and the opened libraries

All class loaders share a map of class factories, by base class and class name, and a list of opened
libraries (`class_loader/utility/class_loader_utility.cc`, `class_loader/utility/class_factory.cc`).
A class factory has the path of its library and the loaders that own it.

Opening a library runs its static initialisers, which register its classes: a factory for every
class is put into the map, in the place of a factory that another library has registered under the
same name. A loader of a library that is open already is attached to the factories of the library in
the map. Unloading detaches a loader from them, deletes the factories without owners, and closes the
library when the map has no factory of it.

The classes that a library registers are given by a function `classes` of its path. Opening and
closing a shared object succeed. Classes that are registered outside of a library are left out.
-/

open Container List

namespace Cyber.ClassLoader

/-- The key of a class factory: the base class and the class name. -/
structure ClassId where
  base : String
  name : String
deriving DecidableEq, Repr

/-- `GetClassFactoryMapMap` and `GetLibPathSharedLibVector`. The factories in the map are of opened
libraries, and those of one library have the same owners. -/
structure Registry (L : Type*) where
  factories : OwnerTable ClassId String L
  openedLibraries : List String
  uniform : factories.Uniform
  opened : ∀ e ∈ factories, e.group ∈ openedLibraries
  nodup : openedLibraries.Nodup

variable {L : Type*}

namespace Registry

/-- The registry when the program starts. -/
def empty : Registry L where
  factories := .empty
  openedLibraries := []
  uniform := fun _ he => absurd he not_mem_nil
  opened := fun _ he => absurd he not_mem_nil
  nodup := nodup_nil

section Operations

variable [DecidableEq L] (r : Registry L) (libraryPath : String) (l : L)

/-- `IsLibraryLoadedByAnybody` -/
def isLibraryLoadedByAnybody : Bool := libraryPath ∈ r.openedLibraries

/-- `GetAllClassFactoryObjectsOfLibrary` -/
def getAllClassFactoryObjectsOfLibrary : List (Owned ClassId String L) :=
  r.factories.ofGroup libraryPath

/-- `IsLibraryLoaded` -/
def isLibraryLoaded : Bool :=
  let isLibLoadedByAnyone := r.isLibraryLoadedByAnybody libraryPath
  let libClassFactoryObjs := r.getAllClassFactoryObjectsOfLibrary libraryPath
  if isLibLoadedByAnyone ∧ libClassFactoryObjs.length = 0 then true
  else
    let libLoaderClassFactoryObjs := libClassFactoryObjs.filter fun e => l ∈ e.owners
    isLibLoadedByAnyone && libLoaderClassFactoryObjs.length ≤ libClassFactoryObjs.length

/-- The loader is added to the owners of the factories of an opened library. -/
def attach : Registry L :=
  { r with
    factories := r.factories.attach libraryPath l
    uniform := r.uniform.attach
    opened := fun _ he => by
      obtain ⟨e₀, he₀, rfl⟩ := OwnerTable.mem_attach.mp he
      rw [Owned.group_attach]
      exact r.opened e₀ he₀ }

/-- The library is opened, and its classes are registered. -/
def openLibrary (classes : String → List ClassId) (hnew : libraryPath ∉ r.openedLibraries) :
    Registry L where
  factories := r.factories.putAll libraryPath l (classes libraryPath)
  openedLibraries := r.openedLibraries ++ [libraryPath]
  uniform := r.uniform.putAll fun e he hgroup => hnew (hgroup ▸ r.opened e he)
  opened := fun e he => by
    rcases OwnerTable.mem_putAll.mp he with ⟨k, -, rfl⟩ | ⟨he, -⟩
    · exact mem_append_right _ (mem_singleton_self _)
    · exact mem_append_left _ (r.opened e he)
  nodup := nodup_append.mpr ⟨r.nodup, nodup_singleton _, fun a ha b hb => by
    obtain rfl := mem_singleton.mp hb
    exact fun hab => hnew (hab ▸ ha)⟩

/-- `LoadLibrary` -/
def loadLibrary (classes : String → List ClassId) : Registry L :=
  if hopened : libraryPath ∈ r.openedLibraries then r.attach libraryPath l
  else r.openLibrary libraryPath l classes hopened

/-- `DestroyClassFactoryObjectsOfLibrary` -/
def destroyClassFactoryObjectsOfLibrary : Registry L :=
  { r with
    factories := r.factories.detach libraryPath l
    uniform := r.uniform.detach
    opened := fun e he => by
      obtain ⟨e₀, he₀, -, hgroup, -⟩ := OwnerTable.mem_detach.mp he
      exact hgroup ▸ r.opened e₀ he₀ }

/-- A library without class factories in the map is closed. -/
def closeLibrary (hnone : r.getAllClassFactoryObjectsOfLibrary libraryPath = []) : Registry L :=
  { r with
    openedLibraries := r.openedLibraries.erase libraryPath
    opened := fun e he => by
      refine (mem_erase_of_ne fun hgroup => ?_).mpr (r.opened e he)
      have hmem : e ∈ r.getAllClassFactoryObjectsOfLibrary libraryPath :=
        mem_filter.mpr ⟨he, decide_eq_true hgroup⟩
      simp [hnone] at hmem
    nodup := r.nodup.erase _ }

/-- `UnloadLibrary` -/
def unloadLibrary : Registry L :=
  if libraryPath ∈ r.openedLibraries then
    let r := r.destroyClassFactoryObjectsOfLibrary libraryPath l
    if hnone : r.getAllClassFactoryObjectsOfLibrary libraryPath = [] then
      r.closeLibrary libraryPath hnone
    else r
  else r

/-- `CreateClassObj`; the result is the library of the factory that makes the object. -/
def createClassObj (id : ClassId) : Option String :=
  match r.factories.lookup id with
  | some factory => if l ∈ factory.owners then some factory.group else none
  | none => none

end Operations

variable [DecidableEq L] {r : Registry L} {k l : L} {p q : String}
  {classes : String → List ClassId}

theorem isLibraryLoaded_eq : r.isLibraryLoaded p l = r.isLibraryLoadedByAnybody p := by
  unfold isLibraryLoaded
  dsimp only
  split_ifs with h
  · exact h.1.symm
  · rw [decide_eq_true (length_filter_le _ _), Bool.and_true]

theorem mem_opened_loadLibrary :
    q ∈ (r.loadLibrary p l classes).openedLibraries ↔ q ∈ r.openedLibraries ∨ q = p := by
  unfold loadLibrary
  split_ifs with hopened
  · refine (or_iff_left_of_imp ?_).symm
    rintro rfl
    exact hopened
  · simp [openLibrary]

theorem owns_of_loadLibrary (h : r.factories.Owns k q) (hq : q ∈ r.openedLibraries) :
    (r.loadLibrary p l classes).factories.Owns k q := by
  unfold loadLibrary
  split_ifs with hopened
  · exact h.attach
  · exact h.putAll fun hpq => hopened (hpq ▸ hq)

theorem factories_unloadLibrary (hp : p ∈ r.openedLibraries) :
    (r.unloadLibrary p l).factories = r.factories.detach p l := by
  simp only [unloadLibrary, if_pos hp]
  split_ifs <;> rfl

theorem owns_of_unloadLibrary (h : r.factories.Owns k q) (hne : k ≠ l) :
    (r.unloadLibrary p l).factories.Owns k q := by
  by_cases hp : p ∈ r.openedLibraries
  · rw [factories_unloadLibrary hp]
    exact h.detach hne
  · rwa [unloadLibrary, if_neg hp]

theorem mem_opened_unloadLibrary : q ∈ (r.unloadLibrary p l).openedLibraries ↔
    q ∈ r.openedLibraries ∧ (q = p → (r.factories.detach p l).ofGroup p ≠ []) := by
  by_cases hp : p ∈ r.openedLibraries
  · simp only [unloadLibrary, if_pos hp]
    split_ifs with hnone
    · have hclosed : (r.factories.detach p l).ofGroup p = [] := hnone
      rw [hclosed, ne_self_iff_false, imp_false]
      exact r.nodup.mem_erase_iff.trans and_comm
    · exact (and_iff_left fun _ => hnone).symm
  · rw [unloadLibrary, if_neg hp]
    refine (and_iff_left_of_imp fun hq hqp => ?_).symm
    exact absurd (hqp ▸ hq) hp

/-- A loader that keeps its factories keeps the library open, unless it has none. -/
theorem mem_opened_unloadLibrary_iff (h : r.factories.Owns k p) (hne : k ≠ l)
    (hp : p ∈ r.openedLibraries) :
    p ∈ (r.unloadLibrary p l).openedLibraries ↔ r.factories.ofGroup p ≠ [] := by
  rw [mem_opened_unloadLibrary, and_iff_right hp, forall_prop_of_true rfl,
    h.ofGroup_detach_ne_nil_iff hne]

theorem createClassObj_eq_some_iff {id : ClassId} : r.createClassObj l id = some p ↔
    ∃ e ∈ r.factories, e.key = id ∧ e.group = p ∧ l ∈ e.owners := by
  unfold createClassObj
  constructor
  · intro h
    split at h
    · next e hlookup =>
      obtain ⟨hl, hgroup⟩ := Option.ite_none_right_eq_some.mp h
      obtain ⟨he, hkey⟩ := OwnerTable.lookup_eq_some_iff.mp hlookup
      exact ⟨e, he, hkey, Option.some.inj hgroup, hl⟩
    · cases h
  · rintro ⟨e, he, hkey, rfl, hl⟩
    rw [OwnerTable.lookup_eq_some_iff.mpr ⟨he, hkey⟩]
    exact if_pos hl

theorem owns_of_createClassObj {id : ClassId} (h : r.createClassObj l id = some p) :
    r.factories.Owns l p ∧ p ∈ r.openedLibraries := by
  obtain ⟨e, he, -, rfl, hl⟩ := createClassObj_eq_some_iff.mp h
  exact ⟨r.uniform.owns he hl, r.opened e he⟩

/-- The factories in the map are exactly for the classes of the opened libraries: no library has
registered a class under a name of another one. -/
structure Complete (classes : String → List ClassId) (r : Registry L) : Prop where
  registered : ∀ p ∈ r.openedLibraries, ∀ id ∈ classes p,
    ∃ e ∈ r.factories, e.key = id ∧ e.group = p
  listed : ∀ e ∈ r.factories, e.key ∈ classes e.group

theorem Complete.loadLibrary (h : r.Complete classes)
    (hdisjoint : ∀ q ∈ r.openedLibraries, q ≠ p → (classes q).Disjoint (classes p)) :
    (r.loadLibrary p l classes).Complete classes := by
  unfold Registry.loadLibrary
  split_ifs with hopened
  · refine ⟨fun q hq id hid => ?_, fun e he => ?_⟩
    · obtain ⟨e, he, hkey, hgroup⟩ := h.registered q hq id hid
      exact ⟨e.attach p l, OwnerTable.mem_attach.mpr ⟨e, he, rfl⟩, by simpa using hkey,
        by simpa using hgroup⟩
    · obtain ⟨e₀, he₀, rfl⟩ := OwnerTable.mem_attach.mp he
      simpa using h.listed e₀ he₀
  · refine ⟨fun q hq id hid => ?_, fun e he => ?_⟩
    · by_cases hqp : q = p
      · subst hqp
        exact ⟨.single id q l, OwnerTable.mem_putAll.mpr (.inl ⟨id, hid, rfl⟩), rfl, rfl⟩
      · have hq : q ∈ r.openedLibraries := by simpa [openLibrary, hqp] using hq
        obtain ⟨e, he, rfl, hgroup⟩ := h.registered q hq id hid
        exact ⟨e, OwnerTable.mem_putAll.mpr (.inr ⟨he, hdisjoint q hq hqp hid⟩), rfl, hgroup⟩
    · rcases OwnerTable.mem_putAll.mp he with ⟨id, hid, rfl⟩ | ⟨he, -⟩
      · exact hid
      · exact h.listed e he

theorem Complete.unloadLibrary (h : r.Complete classes) :
    (r.unloadLibrary p l).Complete classes := by
  by_cases hp : p ∈ r.openedLibraries
  · refine ⟨fun q hq id hid => ?_, fun e he => ?_⟩
    · obtain ⟨hopened, hne⟩ := mem_opened_unloadLibrary.mp hq
      obtain ⟨e, he, rfl, rfl⟩ := h.registered q hopened id hid
      rw [factories_unloadLibrary hp]
      by_cases hgroup : e.group = p
      · exact r.uniform.exists_mem_detach (hne hgroup) he
      · exact ⟨e, OwnerTable.mem_detach.mpr ⟨e, he, rfl, rfl, by rw [if_neg hgroup]⟩, rfl, rfl⟩
    · rw [factories_unloadLibrary hp, OwnerTable.mem_detach] at he
      obtain ⟨e₀, he₀, hkey, hgroup, -⟩ := he
      rw [hkey, hgroup]
      exact h.listed e₀ he₀
  · rwa [Registry.unloadLibrary, if_neg hp]

end Registry

end Cyber.ClassLoader
