import Mathlib.Data.Finset.Basic

/-!
# Tables with owned entries

An *owner table* has at most one entry for a key. An entry belongs to a group and has one or more
owners. Owners are attached to all entries of a group and detached from all of them; an entry whose
last owner is detached leaves the table. An entry with a key that is in the table replaces the entry
there, to whatever group this belongs.

If a group is entered only when the table has no entry of it, then all its entries have the same
owners at all times: the table is *uniform*. So the group of an owner that is not detached only
disappears when entries of other groups replace it.
-/

open List Option

namespace Container

/-- An entry under a key, with its group and its owners. -/
@[ext] structure Owned (K G O : Type*) where
  key : K
  group : G
  owners : Finset O
  owned : owners.Nonempty
deriving DecidableEq

variable {K G O : Type*}

namespace Owned

/-- An entry with one owner. -/
def single (k : K) (g : G) (o : O) : Owned K G O := ⟨k, g, {o}, Finset.singleton_nonempty o⟩

variable [DecidableEq G] [DecidableEq O]

/-- An owner is added to an entry of the group `g`. -/
def attach (g : G) (o : O) (e : Owned K G O) : Owned K G O :=
  if e.group = g then
    { e with owners := insert o e.owners, owned := Finset.insert_nonempty o e.owners }
  else e

/-- An owner is removed from an entry of the group `g`, and the entry with its last owner. -/
def detach (g : G) (o : O) (e : Owned K G O) : Option (Owned K G O) :=
  if e.group = g ∧ o ∈ e.owners then
    if h : (e.owners.erase o).Nonempty then some { e with owners := e.owners.erase o, owned := h }
    else none
  else some e

variable {e e' : Owned K G O} {g : G} {o : O}

@[simp] theorem key_attach : (e.attach g o).key = e.key := by
  unfold attach
  split_ifs <;> rfl

@[simp] theorem group_attach : (e.attach g o).group = e.group := by
  unfold attach
  split_ifs <;> rfl

theorem owners_attach :
    (e.attach g o).owners = if e.group = g then insert o e.owners else e.owners := by
  unfold attach
  split_ifs <;> rfl

theorem detach_eq_some_iff : e.detach g o = some e' ↔ e'.key = e.key ∧ e'.group = e.group ∧
    e'.owners = if e.group = g then e.owners.erase o else e.owners := by
  unfold detach
  by_cases howned : e.group = g ∧ o ∈ e.owners
  · rw [if_pos howned, if_pos howned.1]
    split_ifs with hne
    · rw [some_inj, eq_comm, Owned.ext_iff]
    · exact iff_of_false not_false fun h => hne (h.2.2 ▸ e'.owned)
  · have howners : (if e.group = g then e.owners.erase o else e.owners) = e.owners := by
      split_ifs with hgroup
      · exact Finset.erase_eq_of_notMem fun ho => howned ⟨hgroup, ho⟩
      · rfl
    rw [if_neg howned, howners, some_inj, eq_comm, Owned.ext_iff]

end Owned

/-- A table with one entry for each of its keys. -/
structure OwnerTable (K G O : Type*) where
  entries : List (Owned K G O)
  nodup : (entries.map Owned.key).Nodup

namespace OwnerTable

instance : Membership (Owned K G O) (OwnerTable K G O) := ⟨fun t e => e ∈ t.entries⟩

/-- The table without entries. -/
def empty : OwnerTable K G O := ⟨[], nodup_nil⟩

/-- The entries of a group have the same owners. -/
def Uniform (t : OwnerTable K G O) : Prop :=
  ∀ e ∈ t, ∀ e' ∈ t, e.group = e'.group → e.owners = e'.owners

/-- An owner has all entries of a group. -/
def Owns (t : OwnerTable K G O) (o : O) (g : G) : Prop := ∀ e ∈ t, e.group = g → o ∈ e.owners

variable {t : OwnerTable K G O} {e : Owned K G O} {g g' : G} {o o' : O}

theorem Uniform.owns (h : t.Uniform) (he : e ∈ t) (ho : o ∈ e.owners) : t.Owns o e.group :=
  fun e' he' hgroup => h e he e' he' hgroup.symm ▸ ho

/-! ### Keys -/

section Keys

variable [DecidableEq K]

/-- The entry under a key. -/
def lookup (t : OwnerTable K G O) (k : K) : Option (Owned K G O) :=
  t.entries.find? fun e => e.key = k

/-- An entry is put under its key, in the place of the one that is there. -/
def put (t : OwnerTable K G O) (e : Owned K G O) : OwnerTable K G O where
  entries := e :: t.entries.filter fun e' => e'.key ≠ e.key
  nodup := by
    rw [map_cons, nodup_cons]
    refine ⟨fun h => ?_, t.nodup.sublist (filter_sublist.map _)⟩
    obtain ⟨e', he', hkey⟩ := mem_map.mp h
    exact of_decide_eq_true (mem_filter.mp he').2 hkey

/-- Entries of one group with one owner are put under the keys of a list. -/
def putAll (t : OwnerTable K G O) (g : G) (o : O) (ks : List K) : OwnerTable K G O :=
  ks.foldl (fun t k => t.put (.single k g o)) t

theorem lookup_eq_some_iff {k : K} : t.lookup k = some e ↔ e ∈ t ∧ e.key = k := by
  have hfound : ∀ {e}, t.lookup k = some e → e ∈ t ∧ e.key = k := fun h => by
    have hkey := find?_some h
    exact ⟨mem_of_find?_eq_some h, of_decide_eq_true hkey⟩
  refine ⟨hfound, ?_⟩
  rintro ⟨he, rfl⟩
  obtain ⟨e', he'⟩ : ∃ e', t.lookup e.key = some e' :=
    isSome_iff_exists.mp (find?_isSome.mpr ⟨e, he, decide_eq_true rfl⟩)
  rw [he', inj_on_of_nodup_map t.nodup (hfound he').1 he (hfound he').2]

theorem mem_put {e' : Owned K G O} : e ∈ t.put e' ↔ e = e' ∨ e ∈ t ∧ e.key ≠ e'.key := by
  refine mem_cons.trans (or_congr_right ?_)
  rw [mem_filter, decide_eq_true_iff]
  exact Iff.rfl

variable {ks : List K}

theorem mem_putAll : e ∈ t.putAll g o ks ↔ (∃ k ∈ ks, e = .single k g o) ∨ e ∈ t ∧ e.key ∉ ks := by
  induction ks generalizing t with
  | nil => simp [putAll]
  | cons k ks ih =>
    rw [putAll, foldl_cons, ← putAll, ih, mem_put, mem_cons, not_or]
    constructor
    · rintro (⟨k', hk', rfl⟩ | ⟨rfl | ⟨he, hk⟩, hks⟩)
      · exact .inl ⟨k', mem_cons_of_mem k hk', rfl⟩
      · exact .inl ⟨k, mem_cons_self, rfl⟩
      · exact .inr ⟨he, hk, hks⟩
    · rintro (⟨k', hk', rfl⟩ | ⟨he, hk, hks⟩)
      · by_cases hmem : k' ∈ ks
        · exact .inl ⟨k', hmem, rfl⟩
        · obtain rfl := (mem_cons.mp hk').resolve_right hmem
          exact .inr ⟨.inl rfl, hmem⟩
      · exact .inr ⟨.inr ⟨he, hk⟩, hks⟩

theorem Uniform.putAll (h : t.Uniform) (hnew : ∀ e ∈ t, e.group ≠ g) :
    (t.putAll g o ks).Uniform := by
  intro e he e' he' hgroup
  rcases mem_putAll.mp he with ⟨k, -, rfl⟩ | ⟨he, -⟩ <;>
    rcases mem_putAll.mp he' with ⟨k', -, rfl⟩ | ⟨he', -⟩
  · rfl
  · exact absurd hgroup.symm (hnew e' he')
  · exact absurd hgroup (hnew e he)
  · exact h e he e' he' hgroup

theorem Owns.putAll (h : t.Owns o' g') (hne : g ≠ g') : (t.putAll g o ks).Owns o' g' := by
  intro e he hgroup
  rcases mem_putAll.mp he with ⟨k, -, rfl⟩ | ⟨he, -⟩
  · exact absurd hgroup hne
  · exact h e he hgroup

end Keys

/-! ### Groups -/

section Groups

variable [DecidableEq G]

/-- The entries of a group. -/
def ofGroup (t : OwnerTable K G O) (g : G) : List (Owned K G O) :=
  t.entries.filter fun e => e.group = g

theorem ofGroup_ne_nil_iff : t.ofGroup g ≠ [] ↔ ∃ e ∈ t, e.group = g := by
  rw [ofGroup, Ne, filter_eq_nil_iff]
  simp [Membership.mem]

variable [DecidableEq O]

/-- An owner is attached to every entry of a group. -/
def attach (t : OwnerTable K G O) (g : G) (o : O) : OwnerTable K G O where
  entries := t.entries.map (Owned.attach g o)
  nodup := by
    have hkey : Owned.key ∘ Owned.attach g o = (Owned.key : Owned K G O → K) :=
      funext fun _ => Owned.key_attach
    rw [List.map_map, hkey]
    exact t.nodup

/-- An owner is detached from every entry of a group. -/
def detach (t : OwnerTable K G O) (g : G) (o : O) : OwnerTable K G O where
  entries := t.entries.filterMap (Owned.detach g o)
  nodup := by
    refine pairwise_map.mpr (pairwise_filterMap.mpr ?_)
    refine (pairwise_map.mp t.nodup).imp fun hne e₁ h₁ e₂ h₂ => ?_
    rwa [(Owned.detach_eq_some_iff.mp h₁).1, (Owned.detach_eq_some_iff.mp h₂).1]

theorem mem_attach : e ∈ t.attach g o ↔ ∃ e₀ ∈ t, e₀.attach g o = e := mem_map

theorem mem_detach : e ∈ t.detach g o ↔ ∃ e₀ ∈ t, e.key = e₀.key ∧ e.group = e₀.group ∧
    e.owners = if e₀.group = g then e₀.owners.erase o else e₀.owners := by
  refine mem_filterMap.trans (exists_congr fun e₀ => and_congr_right fun _ => ?_)
  exact Owned.detach_eq_some_iff

theorem Uniform.attach (h : t.Uniform) : (t.attach g o).Uniform := by
  intro e he e' he' hgroup
  obtain ⟨e₀, he₀, rfl⟩ := mem_attach.mp he
  obtain ⟨e₁, he₁, rfl⟩ := mem_attach.mp he'
  rw [Owned.group_attach, Owned.group_attach] at hgroup
  rw [Owned.owners_attach, Owned.owners_attach, hgroup, h e₀ he₀ e₁ he₁ hgroup]

theorem Uniform.detach (h : t.Uniform) : (t.detach g o).Uniform := by
  intro e he e' he' hgroup
  obtain ⟨e₀, he₀, -, hgroup₀, howners₀⟩ := mem_detach.mp he
  obtain ⟨e₁, he₁, -, hgroup₁, howners₁⟩ := mem_detach.mp he'
  rw [hgroup₀, hgroup₁] at hgroup
  rw [howners₀, howners₁, hgroup, h e₀ he₀ e₁ he₁ hgroup]

theorem Uniform.exists_mem_detach (h : t.Uniform) (hg : (t.detach g o).ofGroup g ≠ [])
    (he : e ∈ t) : ∃ e' ∈ t.detach g o, e'.key = e.key ∧ e'.group = e.group := by
  by_cases hgroup : e.group = g
  · obtain ⟨e₁, he₁, hgroup₁⟩ := ofGroup_ne_nil_iff.mp hg
    obtain ⟨e₀, he₀, -, hgroup₀, howners⟩ := mem_detach.mp he₁
    have hgroup₂ : e₀.group = g := hgroup₀.symm.trans hgroup₁
    have hne : (e.owners.erase o).Nonempty := by
      rw [if_pos hgroup₂] at howners
      rw [h e he e₀ he₀ (hgroup.trans hgroup₂.symm), ← howners]
      exact e₁.owned
    refine ⟨⟨e.key, e.group, e.owners.erase o, hne⟩, ?_, rfl, rfl⟩
    exact mem_detach.mpr ⟨e, he, rfl, rfl, by rw [if_pos hgroup]⟩
  · exact ⟨e, mem_detach.mpr ⟨e, he, rfl, rfl, by rw [if_neg hgroup]⟩, rfl, rfl⟩

theorem Owns.attach (h : t.Owns o' g') : (t.attach g o).Owns o' g' := by
  intro e he hgroup
  obtain ⟨e₀, he₀, rfl⟩ := mem_attach.mp he
  rw [Owned.group_attach] at hgroup
  rw [Owned.owners_attach]
  split_ifs
  · exact Finset.mem_insert_of_mem (h e₀ he₀ hgroup)
  · exact h e₀ he₀ hgroup

theorem Owns.detach (h : t.Owns o' g') (hne : o' ≠ o) : (t.detach g o).Owns o' g' := by
  intro e he hgroup
  obtain ⟨e₀, he₀, -, hgroup₀, howners⟩ := mem_detach.mp he
  have ho := h e₀ he₀ (hgroup₀ ▸ hgroup)
  rw [howners]
  split_ifs
  · exact Finset.mem_erase_of_ne_of_mem hne ho
  · exact ho

theorem Owns.ofGroup_detach_ne_nil_iff (h : t.Owns o' g) (hne : o' ≠ o) :
    (t.detach g o).ofGroup g ≠ [] ↔ t.ofGroup g ≠ [] := by
  rw [ofGroup_ne_nil_iff, ofGroup_ne_nil_iff]
  constructor
  · rintro ⟨e, he, hgroup⟩
    obtain ⟨e₀, he₀, -, hgroup₀, -⟩ := mem_detach.mp he
    exact ⟨e₀, he₀, hgroup₀ ▸ hgroup⟩
  · rintro ⟨e, he, hgroup⟩
    have howned : o' ∈ e.owners.erase o := Finset.mem_erase_of_ne_of_mem hne (h e he hgroup)
    refine ⟨⟨e.key, e.group, e.owners.erase o, o', howned⟩, ?_, hgroup⟩
    exact mem_detach.mpr ⟨e, he, rfl, rfl, by rw [if_pos hgroup]⟩

end Groups

end OwnerTable

end Container
