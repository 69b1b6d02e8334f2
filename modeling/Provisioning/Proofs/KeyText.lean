import Mathlib.Data.List.TakeWhile
import Provisioning.ConnectorKey

/-! The text of a key. A text stands for a key just when it has two colons with something before, between and behind
them, and the key is then written as this very text. A key comes back from its own text just when none of its parts is
empty and neither its bundle nor its version holds a colon: `ofText?_inverts_text`. -/

namespace Provisioning.ConnectorKey

/-- The text before the first colon, that between the first two, and all that follows them. -/
def Parts (s first second rest : String) : Prop :=
  s = first ++ ":" ++ second ++ ":" ++ rest ∧ ':' ∉ first.toList ∧ ':' ∉ second.toList

variable {s first second rest : String} {cs before after : List Char} {k : ConnectorKey}

theorem cut_append (h : ':' ∉ before) (after : List Char) : cut (before ++ ':' :: after) = some (before, after) := by
  have hplain : ∀ c ∈ before, decide (c ≠ ':') = true := by
    intro c hc
    rw [decide_eq_true_eq]
    rintro rfl
    exact h hc
  unfold cut
  rw [List.dropWhile_append_of_pos hplain, List.takeWhile_append_of_pos hplain]
  simp

theorem cut_eq_none_iff : cut cs = none ↔ ':' ∉ cs := by
  constructor
  · intro h hmem
    obtain ⟨before, after, rfl, hbefore⟩ := List.eq_append_cons_of_mem hmem
    rw [cut_append hbefore] at h
    cases h
  · intro h
    have hall : cs.dropWhile (· ≠ ':') = [] := by
      rw [List.dropWhile_eq_nil_iff]
      intro c hc
      rw [decide_eq_true_eq]
      rintro rfl
      exact h hc
    unfold cut
    rw [hall]

theorem cut_eq_some_iff : cut cs = some (before, after) ↔ cs = before ++ ':' :: after ∧ ':' ∉ before := by
  constructor
  · intro h
    have hmem : ':' ∈ cs := by
      by_contra hnone
      rw [cut_eq_none_iff.2 hnone] at h
      cases h
    obtain ⟨before', after', rfl, hbefore⟩ := List.eq_append_cons_of_mem hmem
    rw [cut_append hbefore] at h
    cases h
    exact ⟨rfl, hbefore⟩
  · rintro ⟨rfl, hbefore⟩
    exact cut_append hbefore after

theorem parts_iff : Parts s first second rest ↔
    ∃ cs, cut s.toList = some (first.toList, cs) ∧ cut cs = some (second.toList, rest.toList) := by
  have hjoined : (first ++ ":" ++ second ++ ":" ++ rest).toList =
      first.toList ++ ':' :: (second.toList ++ ':' :: rest.toList) := by simp
  simp only [Parts, cut_eq_some_iff, ← String.toList_inj, hjoined]
  constructor
  · rintro ⟨hs, hfirst, hsecond⟩
    exact ⟨_, ⟨hs, hfirst⟩, rfl, hsecond⟩
  · rintro ⟨_, ⟨hs, hfirst⟩, rfl, hsecond⟩
    exact ⟨hs, hfirst, hsecond⟩

theorem Parts.unique {first' second' rest' : String} (h : Parts s first second rest)
    (h' : Parts s first' second' rest') : first = first' ∧ second = second' ∧ rest = rest' := by
  obtain ⟨cs, hcut, hrest⟩ := parts_iff.1 h
  obtain ⟨cs', hcut', hrest'⟩ := parts_iff.1 h'
  rw [hcut, Option.some_inj, Prod.mk.injEq] at hcut'
  obtain ⟨hfirst, rfl⟩ := hcut'
  rw [hrest, Option.some_inj, Prod.mk.injEq] at hrest'
  exact ⟨String.toList_inj.1 hfirst, String.toList_inj.1 hrest'.1, String.toList_inj.1 hrest'.2⟩

theorem exists_parts_iff : (∃ first second rest, Parts s first second rest) ↔ 2 ≤ s.toList.count ':' := by
  constructor
  · rintro ⟨first, second, rest, rfl, -, -⟩
    simp [List.count_append]
    omega
  · intro h
    have hcolon : ':' ∈ s.toList := List.count_pos_iff.1 (by omega)
    obtain ⟨first, cs, hs, hfirst⟩ := List.eq_append_cons_of_mem hcolon
    rw [hs, List.count_append, List.count_eq_zero.2 hfirst, List.count_cons_self] at h
    have hcolon' : ':' ∈ cs := List.count_pos_iff.1 (by omega)
    obtain ⟨second, rest, hcs, hsecond⟩ := List.eq_append_cons_of_mem hcolon'
    refine ⟨.ofList first, .ofList second, .ofList rest, parts_iff.2 ⟨cs, ?_, ?_⟩⟩
    · rw [String.toList_ofList]
      exact cut_eq_some_iff.2 ⟨hs, hfirst⟩
    · rw [String.toList_ofList, String.toList_ofList]
      exact cut_eq_some_iff.2 ⟨hcs, hsecond⟩

theorem ofText?_eq_some_iff :
    ofText? s = some k ↔ Parts s k.bundle k.version k.name ∧ k.bundle ≠ "" ∧ k.version ≠ "" ∧ k.name ≠ "" := by
  have hfull (cs : List Char) : cs.isEmpty = false ↔ String.ofList cs ≠ "" := by simp
  obtain ⟨bundle, version, name⟩ := k
  simp only [ofText?, parts_iff, Option.bind_eq_bind, Option.bind_eq_some_iff, Prod.exists]
  constructor
  · rintro ⟨first, cs, hcut, second, rest, hrest, hkey⟩
    split at hkey
    · cases hkey
    · next hne =>
      cases hkey
      simp only [Bool.or_eq_true, not_or, Bool.not_eq_true, hfull] at hne
      exact ⟨⟨cs, by simpa using hcut, by simpa using hrest⟩, hne.1.1, hne.1.2, hne.2⟩
  · rintro ⟨⟨cs, hcut, hrest⟩, hbundle, hversion, hname⟩
    refine ⟨_, cs, hcut, _, _, hrest, ?_⟩
    simp [hbundle, hversion, hname]

/-- A text stands for a key just if it has three parts that are not empty, and a key comes back from its text
just if its bundle and its version hold no colon. -/
theorem ofText?_inverts_text :
    (∀ s, ((ofText? s).isSome ↔ 2 ≤ s.toList.count ':' ∧
        ∀ first second rest, Parts s first second rest → first ≠ "" ∧ second ≠ "" ∧ rest ≠ "") ∧
      ∀ k, ofText? s = some k → k.text = s) ∧
    ∀ k, ofText? k.text = some k ↔
      (k.bundle ≠ "" ∧ ':' ∉ k.bundle.toList) ∧ (k.version ≠ "" ∧ ':' ∉ k.version.toList) ∧ k.name ≠ "" := by
  refine ⟨fun s => ⟨?_, fun k hk => (ofText?_eq_some_iff.1 hk).1.1.symm⟩, fun k => ?_⟩
  · rw [Option.isSome_iff_exists, ← exists_parts_iff]
    constructor
    · rintro ⟨k, hk⟩
      obtain ⟨hparts, hfull⟩ := ofText?_eq_some_iff.1 hk
      refine ⟨⟨_, _, _, hparts⟩, fun first second rest h => ?_⟩
      obtain ⟨rfl, rfl, rfl⟩ := hparts.unique h
      exact hfull
    · rintro ⟨⟨first, second, rest, hparts⟩, hfull⟩
      exact ⟨⟨first, second, rest⟩, ofText?_eq_some_iff.2 ⟨hparts, hfull _ _ _ hparts⟩⟩
  · rw [ofText?_eq_some_iff]
    constructor
    · rintro ⟨⟨-, hbundle, hversion⟩, hfull⟩
      exact ⟨⟨hfull.1, hbundle⟩, ⟨hfull.2.1, hversion⟩, hfull.2.2⟩
    · rintro ⟨⟨hb, hbundle⟩, ⟨hv, hversion⟩, hname⟩
      exact ⟨⟨rfl, hbundle, hversion⟩, hb, hv, hname⟩

/-- Colons behind the second belong to the name; one in the bundle moves the rest along. -/
example :
    ofText? "ldap:1.2:person:v2" = some ⟨"ldap", "1.2", "person:v2"⟩ ∧
    ofText? (text ⟨"org:ldap", "1.2", "person"⟩) = some ⟨"org", "ldap", "1.2:person"⟩ := by decide

end Provisioning.ConnectorKey
