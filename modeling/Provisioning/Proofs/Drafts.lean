import Provisioning.Proofs.Lookups

/-! Putting objects together. Whatever is told of an object, call by call, it holds under each name what was last written
there, and goes by the Uid that was last written. It can be built if that Uid is one string and anything at all was
written as its name; only if that is one string too, the object has a name that can be read:
`build_holds_last_written`. -/

namespace Provisioning

/-- What is told of an object that is put together. -/
inductive Detail where
  | inClass (c : ObjectClass)
  | uid (value : String)
  | name (value : String)
  | one (a : Attribute)
  | several (attributes : List Attribute)

namespace Detail

def written : Detail → List Attribute
  | inClass _ => []
  | uid value => [(Uid.mk value).toAttribute]
  | name value => [(Name.mk value).toAttribute]
  | one a => [a]
  | several attributes => attributes

def objectClass? : Detail → Option ObjectClass
  | inClass c => some c
  | _ => none

/-- What was last written under a name, case aside. -/
def lastWritten? (details : List Detail) (name : String) : Option Attribute :=
  (details.flatMap written).reverse.find? fun a => a.isNamed name

def lastString? (details : List Detail) (name : String) : Option String :=
  (lastWritten? details name).bind Attribute.singleString?

end Detail

namespace Draft

def add (d : Draft) : Detail → Draft
  | .inClass c => d.withClass c
  | .uid value => d.withUid value
  | .name value => d.withName value
  | .one a => d.withAttribute a
  | .several attributes => d.withAttributes attributes

def ofDetails (details : List Detail) : Draft := details.foldl add empty

theorem withAttributes_eq (d : Draft) (attributes : List Attribute) :
    d.withAttributes attributes = ⟨d.objectClass?, attributes.foldl .insert d.attributes⟩ := by
  unfold withAttributes
  induction attributes generalizing d with
  | nil => rfl
  | cons a rest ih => exact ih (d.withAttribute a)

theorem add_eq (d : Draft) (x : Detail) :
    d.add x = ⟨x.objectClass?.or d.objectClass?, x.written.foldl .insert d.attributes⟩ := by
  cases x with
  | several attributes => exact withAttributes_eq d attributes
  | _ => rfl

theorem foldl_add_eq (d : Draft) (details : List Detail) :
    details.foldl add d = ⟨(details.reverse.findSome? Detail.objectClass?).or d.objectClass?,
      (details.flatMap Detail.written).foldl .insert d.attributes⟩ := by
  induction details generalizing d with
  | nil => rfl
  | cons x rest ih =>
    rw [List.foldl_cons, ih, add_eq, List.reverse_cons, List.findSome?_append, List.flatMap_cons, List.foldl_append,
      Option.or_assoc, List.findSome?_singleton]

theorem get?_ofDetails (details : List Detail) (name : String) :
    (ofDetails details).attributes.get? name = Detail.lastWritten? details name := by
  rw [ofDetails, foldl_add_eq, AttributeSet.get?_foldl_insert]
  exact Option.or_none

theorem uid?_ofDetails (details : List Detail) :
    (ofDetails details).attributes.uid? = (Detail.lastString? details uidName).map Uid.mk := by
  rw [AttributeSet.uid?, get?_ofDetails, Detail.lastString?, Option.map_bind]
  rfl

theorem name?_ofDetails (details : List Detail) :
    (ofDetails details).attributes.name? = (Detail.lastString? details nameName).map Name.mk := by
  rw [AttributeSet.name?, get?_ofDetails, Detail.lastString?, Option.map_bind]
  rfl

theorem build_eq_error_iff {d : Draft} :
    (∃ e, d.build = .error e) ↔ d.attributes.uid? = none ∨ d.attributes.contains nameName = false := by
  have hfails : (∃ e, d.build = .error e) ↔ ¬ ∃ o, d.build = .ok o := by
    cases d.build <;> simp
  have hbuilds : (∃ o, d.build = .ok o) ↔ d.attributes.uid?.isSome ∧ d.attributes.contains nameName = true := by
    constructor
    · rintro ⟨o, ho⟩
      obtain ⟨huid, hname, -⟩ := build_eq_ok_iff.1 ho
      exact ⟨Option.isSome_iff_exists.2 ⟨_, huid⟩, hname⟩
    · rintro ⟨huid, hname⟩
      obtain ⟨uid, huid⟩ := Option.isSome_iff_exists.1 huid
      exact ⟨⟨_, uid, _⟩, build_eq_ok_iff.2 ⟨huid, hname, rfl, rfl⟩⟩
  rw [hfails, hbuilds, not_and_or, Option.not_isSome_iff_eq_none, Bool.not_eq_true]

/-- An object that is built holds under each name what was last written there. The Uid has to be one string; the
name need not be, and an object that got another name than that has none. -/
theorem build_holds_last_written (details : List Detail) :
    (∀ o, (ofDetails details).build = .ok o →
      Detail.lastString? details uidName = some o.uid.value ∧
      o.name?.map Name.value = Detail.lastString? details nameName ∧
      (∀ name, o.get? name = Detail.lastWritten? details name) ∧
      o.objectClass = (details.reverse.findSome? Detail.objectClass?).getD .account) ∧
    ((∃ e, (ofDetails details).build = .error e) ↔
      Detail.lastString? details uidName = none ∨ Detail.lastWritten? details nameName = none) ∧
    ((∀ a, Detail.lastWritten? details nameName = some a → a.singleString?.isSome) →
      (∀ o, (ofDetails details).build = .ok o → o.name?.isSome) ∧
      ((∃ e, (ofDetails details).build = .error e) ↔
        Detail.lastString? details uidName = none ∨ Detail.lastString? details nameName = none)) := by
  have hfails : (∃ e, (ofDetails details).build = .error e) ↔
      Detail.lastString? details uidName = none ∨ Detail.lastWritten? details nameName = none := by
    rw [build_eq_error_iff, uid?_ofDetails, Option.map_eq_none_iff, AttributeSet.contains, get?_ofDetails,
      Option.isSome_eq_false_iff, Option.isNone_iff_eq_none]
  have hname : ∀ o, (ofDetails details).build = .ok o → o.name? = (Detail.lastString? details nameName).map Name.mk := by
    intro o ho
    obtain ⟨-, -, -, hattributes⟩ := build_eq_ok_iff.1 ho
    rw [ConnectorObject.name?, hattributes, name?_ofDetails]
  refine ⟨fun o ho => ?_, hfails, fun husable => ?_⟩
  · obtain ⟨huid, -, hclass, hattributes⟩ := build_eq_ok_iff.1 ho
    rw [uid?_ofDetails] at huid
    refine ⟨?_, ?_, fun name => ?_, ?_⟩
    · obtain ⟨value, hvalue, huid⟩ := Option.map_eq_some_iff.1 huid
      rw [hvalue, ← huid]
    · simp [hname o ho, Function.comp_def]
    · rw [ConnectorObject.get?, hattributes, get?_ofDetails]
    · rw [hclass, ofDetails, foldl_add_eq]
      exact congrArg (Option.getD · _) (Option.or_none)
  · have hlast : Detail.lastString? details nameName = none ↔ Detail.lastWritten? details nameName = none := by
      unfold Detail.lastString?
      cases ha : Detail.lastWritten? details nameName with
      | none => simp
      | some a =>
        have hstring : a.singleString? ≠ none := Option.ne_none_iff_isSome.2 (husable a ha)
        simp [hstring]
    refine ⟨fun o ho => ?_, by rw [hfails, hlast]⟩
    obtain ⟨-, hcontains, -⟩ := build_eq_ok_iff.1 ho
    rw [AttributeSet.contains, get?_ofDetails] at hcontains
    rw [hname o ho, Option.isSome_map, ← Option.ne_none_iff_isSome, Ne, hlast]
    exact Option.ne_none_iff_isSome.2 hcontains

/-- An empty name, after one that could be read, makes an object without a name. -/
theorem build_holds_last_written_unnamed :
    let unnamed : List Detail := [.name "bob", .uid "u1", .one (.of "__name__" [])]
    let named : List Detail := [.name "bob", .uid "u1", .one (.single "__name__" (.string "ann"))]
    (∃ o, (ofDetails unnamed).build = .ok o ∧ o.uid = ⟨"u1"⟩ ∧ o.name? = none) ∧
    (∀ a, Detail.lastWritten? named nameName = some a → a.singleString?.isSome) ∧
    ∃ o, (ofDetails named).build = .ok o ∧ o.name?.isSome := by
  intro unnamed named
  have builds {details : List Detail} (h : ¬ ∃ e, (ofDetails details).build = .error e) :
      ∃ o, (ofDetails details).build = .ok o := by
    cases ho : (ofDetails details).build with
    | error e => exact absurd ⟨e, ho⟩ h
    | ok o => exact ⟨o, rfl⟩
  have husable : ∀ a, Detail.lastWritten? named nameName = some a → a.singleString?.isSome := by
    have hlast : Detail.lastWritten? named nameName = some (.single "__name__" (.string "ann")) := by decide
    rw [hlast]
    rintro _ ⟨⟩
    rfl
  refine ⟨?_, husable, ?_⟩
  · obtain ⟨hholds, hfails, -⟩ := build_holds_last_written unnamed
    obtain ⟨o, ho⟩ := builds (by rw [hfails]; decide)
    obtain ⟨huid, hname, -⟩ := hholds o ho
    have hvalue : Detail.lastString? unnamed uidName = some "u1" := by decide
    have hnone : Detail.lastString? unnamed nameName = none := by decide
    refine ⟨o, ho, ?_, ?_⟩
    · exact congrArg Uid.mk (Option.some.inj (huid.symm.trans hvalue))
    · exact Option.map_eq_none_iff.1 (hname.trans hnone)
  · obtain ⟨-, -, hnamed⟩ := build_holds_last_written named
    obtain ⟨hhas, hfails⟩ := hnamed husable
    obtain ⟨o, ho⟩ := builds (by rw [hfails]; decide)
    exact ⟨o, ho, hhas o ho⟩

end Draft

end Provisioning
