import Mathlib.Data.List.Nodup
import NumberedBasic.OrderedMap

/-!
# Dictionaries

A map in which no key comes twice holds one value for each of its keys, and
what it becomes when entries are added, taken away or renamed can be told key
by key.
-/

namespace NumberedBasic

namespace OrderedMap

variable {κ ι α β : Type} [DecidableEq κ] [DecidableEq ι]

/-- No key comes twice. -/
def Distinct (map : OrderedMap κ α) : Prop := map.keys.Nodup

instance (map : OrderedMap κ α) : Decidable map.Distinct :=
  inferInstanceAs (Decidable map.keys.Nodup)

/-! ## What is held -/

theorem get?_cons (key wanted : κ) (value : α) (rest : List (κ × α)) :
    (⟨(key, value) :: rest⟩ : OrderedMap κ α).get? wanted =
      if key = wanted then some value
      else (⟨rest⟩ : OrderedMap κ α).get? wanted := by
  by_cases hkey : key = wanted <;> simp [get?, hkey]

theorem get?_eq_none_iff {map : OrderedMap κ α} {key : κ} :
    map.get? key = none ↔ key ∉ map.keys := by
  rw [get?, Option.map_eq_none_iff, List.find?_eq_none, keys, List.mem_map]
  constructor
  · rintro hnone ⟨entry, hentry, hkey⟩
    exact hnone entry hentry (decide_eq_true hkey)
  · intro hnone entry hentry hkey
    exact hnone ⟨entry, hentry, of_decide_eq_true hkey⟩

theorem get?_mapValues (convert : κ → α → β) (entries : List (κ × α))
    (wanted : κ) :
    (⟨entries.map fun (key, value) => (key, convert key value)⟩ :
      OrderedMap κ β).get? wanted =
      ((⟨entries⟩ : OrderedMap κ α).get? wanted).map (convert wanted) := by
  induction entries with
  | nil => rfl
  | cons entry rest ih =>
      rw [List.map_cons, get?_cons, get?_cons, ih]
      by_cases hkey : entry.1 = wanted
      · rw [if_pos hkey, if_pos hkey, hkey]
        rfl
      · rw [if_neg hkey, if_neg hkey]

/-! ## Keys stay distinct -/

omit [DecidableEq κ] in
theorem distinct_empty : (empty : OrderedMap κ α).Distinct := List.nodup_nil

theorem mem_map_insertEntry {key other : κ} {value : α}
    {entries : List (κ × α)} :
    other ∈ (insertEntry key value entries).map (·.1) ↔
      other = key ∨ other ∈ entries.map (·.1) := by
  induction entries with
  | nil => simp [insertEntry]
  | cons entry rest ih =>
      rw [insertEntry]
      split
      next hkey => simp [← hkey]
      next => rw [List.map_cons, List.mem_cons, ih, List.map_cons,
        List.mem_cons, or_left_comm]

theorem Distinct.insert {map : OrderedMap κ α} (hmap : map.Distinct) (key : κ)
    (value : α) : (map.insert key value).Distinct := by
  obtain ⟨entries⟩ := map
  change (entries.map (·.1)).Nodup at hmap
  change ((insertEntry key value entries).map (·.1)).Nodup
  induction entries with
  | nil => exact List.nodup_singleton key
  | cons entry rest ih =>
      obtain ⟨hentry, hrest⟩ := List.nodup_cons.mp hmap
      rw [insertEntry]
      split
      next hkey => exact List.nodup_cons.mpr ⟨hkey ▸ hentry, hrest⟩
      next hkey =>
        refine List.nodup_cons.mpr ⟨fun hmem => ?_, ih hrest⟩
        exact (mem_map_insertEntry.mp hmem).elim hkey hentry

theorem Distinct.erase {map : OrderedMap κ α} (hmap : map.Distinct) (key : κ) :
    (map.erase key).Distinct :=
  List.Nodup.sublist (List.filter_sublist.map _) hmap

omit [DecidableEq κ] in
theorem Distinct.mapValues {map : OrderedMap κ α} (hmap : map.Distinct)
    (convert : κ → α → β) :
    (⟨map.entries.map fun (key, value) => (key, convert key value)⟩ :
      OrderedMap κ β).Distinct := by
  rw [Distinct, keys, List.map_map]
  exact hmap

/-! ## Entries put in one after another -/

/-- Entries put in, each under the key that its own key stands for, if it
stands for one. -/
def putAll (place? : ι → Option κ) (convert : α → β) (map : OrderedMap κ β)
    (entries : List (ι × α)) : OrderedMap κ β :=
  entries.foldl (fun map entry =>
    match place? entry.1 with
    | some key => map.insert key (convert entry.2)
    | none => map) map

omit [DecidableEq ι] in
theorem Distinct.putAll {map : OrderedMap κ β} (hmap : map.Distinct)
    (place? : ι → Option κ) (convert : α → β) (entries : List (ι × α)) :
    (map.putAll place? convert entries).Distinct := by
  induction entries generalizing map with
  | nil => exact hmap
  | cons entry rest ih =>
      rw [OrderedMap.putAll, List.foldl_cons]
      cases place? entry.1 with
      | none => exact ih hmap
      | some key => exact ih (hmap.insert key _)

/-- A key that one of the entries stands for holds the value of that entry,
and all others hold what they held. -/
theorem get?_putAll {place? : ι → Option κ} {origin? : κ → Option ι}
    (horigin : ∀ index key, place? index = some key ↔ origin? key = some index)
    (convert : α → β) (map : OrderedMap κ β) {source : OrderedMap ι α}
    (hsource : source.Distinct) (wanted : κ) :
    (map.putAll place? convert source.entries).get? wanted =
      (((origin? wanted).bind source.get?).map convert).or
        (map.get? wanted) := by
  obtain ⟨entries⟩ := source
  change (entries.map (·.1)).Nodup at hsource
  change (map.putAll place? convert entries).get? wanted = _
  induction entries generalizing map with
  | nil => cases origin? wanted <;> rfl
  | cons entry rest ih =>
      obtain ⟨index, value⟩ := entry
      obtain ⟨hindex, hrest⟩ := List.nodup_cons.mp hsource
      have hnext (next : OrderedMap κ β) := ih next hrest
      have hput : map.putAll place? convert ((index, value) :: rest) =
          putAll place? convert (match place? index with
            | some key => map.insert key (convert value)
            | none => map) rest := rfl
      rw [hput, hnext]
      by_cases hplace : place? index = some wanted
      · have hnone : (⟨rest⟩ : OrderedMap ι α).get? index = none :=
          get?_eq_none_iff.mpr hindex
        rw [hplace, (horigin index wanted).mp hplace]
        simp [get?_insert, get?_cons, hnone]
      · have hother : (match place? index with
            | some key => map.insert key (convert value)
            | none => map).get? wanted = map.get? wanted := by
          cases hkey : place? index with
          | none => rfl
          | some key =>
              have hne : key ≠ wanted := by
                rintro rfl
                exact hplace hkey
              rw [get?_insert, if_neg hne]
        rw [hother]
        cases hwanted : origin? wanted with
        | none => rfl
        | some other =>
            have hne : index ≠ other := by
              rintro rfl
              exact hplace ((horigin index wanted).mpr hwanted)
            simp [get?_cons, hne]

/-! ## Updates -/

theorem update_eq_putAll (map other : OrderedMap κ α) :
    map.update other = map.putAll some id other.entries := rfl

theorem Distinct.update {map : OrderedMap κ α} (hmap : map.Distinct)
    (other : OrderedMap κ α) : (map.update other).Distinct :=
  hmap.putAll some id other.entries

theorem get?_update (map : OrderedMap κ α) {other : OrderedMap κ α}
    (hother : other.Distinct) (key : κ) :
    (map.update other).get? key = (other.get? key).or (map.get? key) := by
  have horigin (index key : κ) :
      some index = some key ↔ some key = some index := eq_comm
  rw [update_eq_putAll, get?_putAll horigin id map hother, Option.bind_some,
    Option.map_id_fun, id]

/-! ## Dictionaries within a dictionary -/

/-- No key comes twice, neither in the map nor in one that it holds. -/
structure DistinctWithin (map : OrderedMap ι (OrderedMap κ α)) : Prop where
  distinct : map.Distinct
  held : ∀ key inner, map.get? key = some inner → inner.Distinct

omit [DecidableEq κ] in
theorem distinctWithin_empty :
    (empty : OrderedMap ι (OrderedMap κ α)).DistinctWithin :=
  ⟨distinct_empty, fun _ _ hget => by cases hget⟩

omit [DecidableEq κ] in
theorem DistinctWithin.of_entries {map : OrderedMap ι (OrderedMap κ α)}
    (hmap : map.Distinct)
    (hentries : ∀ entry ∈ map.entries, entry.2.Distinct) :
    map.DistinctWithin := by
  refine ⟨hmap, fun key inner hget => ?_⟩
  obtain ⟨entry, hentry, rfl⟩ := Option.map_eq_some_iff.mp hget
  exact hentries entry (List.mem_of_find?_eq_some hentry)

omit [DecidableEq κ] in
theorem DistinctWithin.getD {map : OrderedMap ι (OrderedMap κ α)}
    (hmap : map.DistinctWithin) (key : ι) :
    ((map.get? key).getD empty).Distinct := by
  cases hget : map.get? key with
  | none => exact distinct_empty
  | some inner => exact hmap.held key inner hget

omit [DecidableEq κ] in
theorem DistinctWithin.insert {map : OrderedMap ι (OrderedMap κ α)}
    (hmap : map.DistinctWithin) (key : ι) {inner : OrderedMap κ α}
    (hinner : inner.Distinct) : (map.insert key inner).DistinctWithin where
  distinct := hmap.distinct.insert key inner
  held other held hget := by
    rw [get?_insert] at hget
    split at hget
    · cases hget
      exact hinner
    · exact hmap.held other held hget

omit [DecidableEq κ] in
theorem DistinctWithin.update {map other : OrderedMap ι (OrderedMap κ α)}
    (hmap : map.DistinctWithin) (hother : other.DistinctWithin) :
    (map.update other).DistinctWithin where
  distinct := hmap.distinct.update other
  held key inner hget := by
    rw [get?_update map hother.distinct, Option.or_eq_some_iff] at hget
    exact hget.elim (hother.held key inner) fun h => hmap.held key inner h.2

end OrderedMap

end NumberedBasic
