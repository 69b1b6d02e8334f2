import Mathlib.Data.List.Nodup
import Provisioning.Memory.Connector
import Provisioning.Proofs.Delivery
import Provisioning.Proofs.NormalForms
import Provisioning.Proofs.Stages
import Provisioning.Proofs.Translation

/-! A search finds what a plain scan finds. The system runs native queries that cover the filter, so they
find every object the filter accepts, and perhaps others, and perhaps one object several times; after
repetitions are dropped and answers rechecked the scan is left: `search_perm_scan`. -/

namespace Provisioning

theorem Options.coveringFilter_of_unrestricted {options : Options} (h : options.restriction? = none)
    (filter? : Option Filter) : options.coveringFilter filter? = options := by
  unfold coveringFilter
  rw [h]

/-- The objects of a class that a filter accepts, each as the options ask for it. -/
def scan (objects : List ConnectorObject) (c : ObjectClass) (filter? : Option Filter) (options : Options) :
    List ConnectorObject :=
  (objects.filter fun o => o.objectClass == c && filter?.all fun f => f.accepts o).map options.reduce

namespace QueryRunner

variable {World Query : Type} {runner : QueryRunner World Query}
  {matching : Query → ConnectorObject → Bool} {objects : List ConnectorObject} {ready : World → Prop}

def found (matching : Query → ConnectorObject → Bool) (objects : List ConnectorObject) (c : ObjectClass)
    (query? : Option Query) : List ConnectorObject :=
  objects.filter fun o => o.objectClass == c && query?.all fun q => matching q o

/-- While it is ready, a system answers every query with what the query finds among its objects. -/
structure Serves (runner : QueryRunner World Query) (matching : Query → ConnectorObject → Bool)
    (objects : List ConnectorObject) (ready : World → Prop) : Prop where
  passed : ∀ {w}, ready w → ∀ c query? options,
    (runner.execute c query? options w).passed = found matching objects c query?
  finished : ∀ {w}, ready w → ∀ c query? options,
    ∃ result w', (runner.execute c query? options w).finished = (.ok result, w') ∧ ready w'

theorem Serves.passed_runEach (h : runner.Serves matching objects ready) (c : ObjectClass)
    (options : Options) (queries : List Query) (result : SearchResult) (seen : List Uid) {w : World}
    (hw : ready w) :
    (runner.runEach c options queries result ⟨seen, true⟩ w).passed =
        Delivery.firstOfEach seen (queries.flatMap fun q => found matching objects c (some q)) ∧
      ∃ result' w', (runner.runEach c options queries result ⟨seen, true⟩ w).finished = (.ok result', w') ∧
        ready w' := by
  induction queries generalizing result seen w with
  | nil => exact ⟨rfl, result, w, rfl, hw⟩
  | cons q rest ih =>
    obtain ⟨result', w', hfin, hw'⟩ := h.finished hw c (some q) options
    have ih' := ih result' (Delivery.seenAfter seen (found matching objects c (some q))) hw'
    unfold runEach
    rw [Delivery.passed_andThen, Delivery.finished_andThen, Delivery.passed_distinct,
      Delivery.finished_distinct, h.passed hw, hfin, List.flatMap_cons, Delivery.firstOfEach_append]
    exact ⟨congrArg _ ih'.1, ih'.2⟩

/-- What queries find one after the other: of objects with one Uid the first, if there are several
queries, and all objects of the class, if there is none. -/
def foundByAll (matching : Query → ConnectorObject → Bool) (objects : List ConnectorObject)
    (c : ObjectClass) : List Query → List ConnectorObject
  | [] => found matching objects c none
  | [q] => found matching objects c (some q)
  | queries => Delivery.firstOfEach [] (queries.flatMap fun q => found matching objects c (some q))

theorem Serves.passed_searcher (h : runner.Serves matching objects ready) (c : ObjectClass)
    (filter? : Option Filter) (options : Options) {w : World} (hw : ready w) :
    (runner.searcher c filter? options w).passed =
        foundByAll matching objects c (runner.translator c options w filter?) ∧
      ∃ result w', (runner.searcher c filter? options w).finished = (.ok result, w') ∧ ready w' := by
  unfold searcher
  match runner.translator c options w filter? with
  | [] => exact ⟨h.passed hw c none options, h.finished hw c none options⟩
  | [q] => exact ⟨h.passed hw c (some q) options, h.finished hw c (some q) options⟩
  | q :: r :: rest => exact h.passed_runEach c options (q :: r :: rest) {} [] hw

end QueryRunner

namespace Memory

/-- How a system behaves that runs every query as it is and does not fail. -/
structure Conduct.RunsQueries (b : Conduct) : Prop where
  undisturbed : b.interference? "query" = none
  minds_queries : b.ignoresQueries = false
  minds_classes : b.ignoresClasses = false
  succeeds : b.failingQuery? = none

theorem Site.system_change (w : Site) (name : String) (f : System → System) :
    (w.change name f).system name = f (w.system name) := by
  unfold system change
  rw [Named.lookup_put, if_pos rfl, Option.getD_some]
  rfl

theorem System.find_eq_found {s : System} (h : s.conduct.RunsQueries) (c : ObjectClass)
    (query? : Option Filter) :
    s.find c query? = QueryRunner.found (fun q o => q.accepts o) s.objects c query? := by
  simp only [find, QueryRunner.found, h.minds_queries, h.minds_classes, Bool.false_or]

theorem System.searchResult_ok {s : System} (h : s.conduct.RunsQueries) : ∃ r, s.searchResult = .ok r := by
  unfold searchResult
  rw [h.succeeds, if_neg (by simp)]
  split
  · exact ⟨_, rfl⟩
  · exact ⟨_, rfl⟩

theorem Link.execute_runsQueries (link : Link) {w : Site}
    (h : (w.system link.system).conduct.RunsQueries) (c : ObjectClass) (query? : Option Filter)
    (options : Options) :
    (link.execute c query? options w).passed =
        QueryRunner.found (fun q o => q.accepts o) (w.system link.system).objects c query? ∧
      ∃ r w', (link.execute c query? options w).finished = (.ok r, w') ∧
        (w'.system link.system).objects = (w.system link.system).objects ∧
        (w'.system link.system).conduct.RunsQueries := by
  set s : System := { w.system link.system with queries := (w.system link.system).queries + 1 }
  set w' := (w.change link.system fun s => { s with queries := s.queries + 1 }).note link
    (.query c query?) options with hw'
  have hs : w'.system link.system = s :=
    Site.system_change w link.system fun s => { s with queries := s.queries + 1 }
  have hc : s.conduct.RunsQueries := h
  have he : link.execute c query? options w =
      if s.conduct.ignoresAnswers then .regardless (s.searchResult, w') (s.find c query?)
      else .untilStopped (s.searchResult, w') (s.find c query?) := by
    unfold execute
    simp only [← hw', hs, hc.undisturbed]
  obtain ⟨r, hr⟩ := System.searchResult_ok hc
  rw [he, hr, System.find_eq_found hc]
  split
  · exact ⟨Delivery.passed_regardless _ _, r, w', Delivery.finished_regardless _ _, by rw [hs], by rw [hs]; exact hc⟩
  · exact ⟨Delivery.passed_untilStopped _ _, r, w', Delivery.finished_untilStopped _ _, by rw [hs],
      by rw [hs]; exact hc⟩

theorem Link.serves (link : Link) (objects : List ConnectorObject) :
    link.runner.Serves (fun q o => q.accepts o) objects fun w =>
      (w.system link.system).objects = objects ∧ (w.system link.system).conduct.RunsQueries where
  passed hw c query? options := hw.1 ▸ (link.execute_runsQueries hw.2 c query? options).1
  finished hw c query? options := hw.1 ▸ (link.execute_runsQueries hw.2 c query? options).2

end Memory

namespace Hosted

variable {World Query : Type} {runner : QueryRunner World Query}
  {matching : Query → ConnectorObject → Bool} {objects : List ConnectorObject} {ready : World → Prop}

theorem refine_eq {ρ : Type} (n : Normalization) (filter? : Option Filter) (options : Options)
    (d : Delivery ConnectorObject ρ) :
    refine n filter? options d =
      (d.filterItems fun o => filter?.all fun f => f.accepts (n.onObject o)).mapItems fun o =>
        options.reduce (n.onObject o) := by
  rw [funext options.reduce_eq]
  unfold refine Delivery.normalized
  cases filter? <;> cases options.restriction? <;>
    simp only [Delivery.accepted, Delivery.reduced, Delivery.filterItems_mapItems, Delivery.mapItems_mapItems,
      Option.all_none, Option.all_some, Option.map_none, Option.map_some, Option.getD, Delivery.filterItems_true]

theorem passed_refine {ρ : Type} (n : Normalization) (filter? : Option Filter) (options : Options)
    (d : Delivery ConnectorObject ρ) :
    (refine n filter? options d).passed =
      ((d.passed.map n.onObject).filter fun o => filter?.all fun f => f.accepts o).map options.reduce := by
  rw [refine_eq, Delivery.passed_mapItems, Delivery.passed_filterItems, List.filter_map, List.map_map]
  rfl

theorem finished_refine {ρ : Type} (n : Normalization) (filter? : Option Filter) (options : Options)
    (d : Delivery ConnectorObject ρ) : (refine n filter? options d).finished = d.finished := by
  rw [refine_eq, Delivery.finished_mapItems, Delivery.finished_filterItems]

/-- Rechecking what one query or none finds leaves the objects that the filter accepts, in their order. -/
theorem filter_found (objects : List ConnectorObject) (c : ObjectClass) {filter? : Option Filter}
    {query? : Option Query}
    (hq : ∀ o, (filter?.all fun f => f.accepts o) = true → (query?.all fun q => matching q o) = true) :
    ((QueryRunner.found matching objects c query?).filter fun o => filter?.all fun f => f.accepts o) =
      objects.filter fun o => o.objectClass == c && filter?.all fun f => f.accepts o := by
  unfold QueryRunner.found
  rw [List.filter_filter]
  refine List.filter_congr fun o _ => ?_
  rw [Bool.eq_iff_iff]
  simp only [Bool.and_eq_true]
  exact ⟨fun h => ⟨h.2.1, h.1⟩, fun h => ⟨h.2, h.1, hq o h.2⟩⟩

theorem eq_of_uid {o p : ConnectorObject} (hd : (objects.map (·.uid)).Nodup) (ho : o ∈ objects)
    (hp : p ∈ objects) (h : o.uid = p.uid) : o = p :=
  List.inj_on_of_nodup_map hd ho hp h

/-- Rechecking what several queries find leaves those objects as well, each of them once. -/
theorem filter_firstOfEach_perm (hd : (objects.map (·.uid)).Nodup) {c : ObjectClass}
    {filter? : Option Filter} {queries : List Query}
    (hq : ∀ o, (filter?.all fun f => f.accepts o) = true → ∃ q ∈ queries, matching q o = true) :
    ((Delivery.firstOfEach [] (queries.flatMap fun q => QueryRunner.found matching objects c (some q))).filter
        fun o => filter?.all fun f => f.accepts o).Perm
      (objects.filter fun o => o.objectClass == c && filter?.all fun f => f.accepts o) := by
  set all := queries.flatMap fun q => QueryRunner.found matching objects c (some q) with hall
  have hmem : ∀ o, o ∈ all ↔ o ∈ objects ∧ (o.objectClass == c) = true ∧ ∃ q ∈ queries, matching q o = true := by
    intro o
    simp only [hall, QueryRunner.found, List.mem_flatMap, List.mem_filter, Option.all_some, Bool.and_eq_true]
    exact ⟨fun ⟨q, hm, ho, hc, hmo⟩ => ⟨ho, hc, q, hm, hmo⟩, fun ⟨ho, hc, q, hm, hmo⟩ => ⟨q, hm, ho, hc, hmo⟩⟩
  -- the first object with a Uid is the only one with it, so none is lost with the repetitions
  have hfirst : ∀ o, o ∈ Delivery.firstOfEach [] all ↔ o ∈ all := by
    intro o
    refine ⟨fun h => (Delivery.mem_of_mem_firstOfEach h).1, fun h => ?_⟩
    obtain ⟨p, hp, hpo⟩ := Delivery.exists_mem_firstOfEach h List.not_mem_nil
    have hpall := (Delivery.mem_of_mem_firstOfEach hp).1
    rwa [eq_of_uid hd ((hmem p).1 hpall).1 ((hmem o).1 h).1 hpo] at hp
  have hnl := (List.Nodup.of_map _ (Delivery.nodup_firstOfEach [] all)).filter fun o =>
    filter?.all fun f => f.accepts o
  have hnr := (List.Nodup.of_map _ hd).filter fun o =>
    o.objectClass == c && filter?.all fun f => f.accepts o
  refine (List.perm_ext_iff_of_nodup hnl hnr).2 fun o => ?_
  rw [List.mem_filter, List.mem_filter, hfirst, hmem, Bool.and_eq_true]
  exact ⟨fun h => ⟨h.1.1, h.1.2.1, h.2⟩, fun h => ⟨⟨h.1, h.2.1, hq o h.2.2⟩, h.2.2⟩⟩

/-- Rechecking what a search passes, when its queries cover the filter. -/
theorem filter_searcher_perm (hs : runner.Serves matching objects ready)
    (hd : (objects.map (·.uid)).Nodup) {c : ObjectClass} {filter? : Option Filter} {options : Options}
    {w : World} (hw : ready w)
    (hc : Covers (fun q o => matching q o = true) filter? (runner.translator c options w filter?)) :
    ((runner.searcher c filter? options w).passed.filter fun o => filter?.all fun f => f.accepts o).Perm
        (objects.filter fun o => o.objectClass == c && filter?.all fun f => f.accepts o) ∧
      ((runner.translator c options w filter?).length ≤ 1 →
        ((runner.searcher c filter? options w).passed.filter fun o => filter?.all fun f => f.accepts o) =
          objects.filter fun o => o.objectClass == c && filter?.all fun f => f.accepts o) := by
  rw [(hs.passed_searcher c filter? options hw).1]
  generalize runner.translator c options w filter? = queries at hc ⊢
  match queries, hc with
  | [], _ =>
    have hq : ∀ o, (filter?.all fun f => f.accepts o) = true →
        ((none : Option Query).all fun q => matching q o) = true := fun _ _ => rfl
    have he := filter_found objects c hq
    exact ⟨.of_eq he, fun _ => he⟩
  | [q], hc =>
    have hq : ∀ o, (filter?.all fun f => f.accepts o) = true →
        ((some q).all fun q => matching q o) = true := by
      intro o ho
      simpa using hc.resolve_left (List.cons_ne_nil q []) o ho
    have he := filter_found objects c hq
    exact ⟨.of_eq he, fun _ => he⟩
  | q :: r :: rest, hc =>
    have hq := hc.resolve_left (List.cons_ne_nil q (r :: rest))
    exact ⟨filter_firstOfEach_perm hd hq, fun hl => by simp at hl⟩

theorem nodup_uid_scan (hd : (objects.map (·.uid)).Nodup) (c : ObjectClass) (filter? : Option Filter)
    (options : Options) : ((scan objects c filter? options).map (·.uid)).Nodup := by
  have he : (fun o : ConnectorObject => o.uid) ∘ options.reduce = fun o => o.uid :=
    funext options.uid_reduce
  rw [scan, List.map_map, he]
  exact hd.sublist (List.filter_sublist.map _)

/-- A connector that serves objects with distinct Uids is searched as if its objects were scanned, in some
order, and in theirs unless there are several queries. -/
theorem search_perm_scan {h : Hosted World} {c : ObjectClass} {filter? : Option Filter} {options : Options}
    {w : World} (hsearch : h.connector.search? w = some runner.searcher)
    (hnormalizer : h.connector.normalizer? w = none) (hserves : runner.Serves matching objects ready)
    (hready : ready w) (hdistinct : (objects.map (·.uid)).Nodup)
    (hcovers : Covers (fun q o => matching q o = true) filter?
      (runner.translator c (options.coveringFilter filter?) w filter?)) :
    ∃ delivered result w',
      delivered.Perm (scan objects c filter? options) ∧
      (delivered.map (·.uid)).Nodup ∧
      ((runner.translator c (options.coveringFilter filter?) w filter?).length ≤ 1 →
        delivered = scan objects c filter? options) ∧
      ∀ {σ : Type} (handler : Handler ConnectorObject σ), handler.GoesOn → ∀ s,
        ((h.search c filter? options w).run handler).run s = ((.ok result, w'), handler.after delivered s) := by
  have hn : h.normalization c w = ⟨c, none⟩ := by rw [normalization, hnormalizer]
  have hfilter : filter?.map (⟨c, none⟩ : Normalization).onFilter = filter? := by cases filter? <;> rfl
  have hsearch' : h.search c filter? options w = refine ⟨c, none⟩ filter? options
      (runner.searcher c filter? (options.coveringFilter filter?) w) := by
    simp only [search, hsearch, hn, hfilter]
  obtain ⟨-, result, w', hfinished, -⟩ :=
    hserves.passed_searcher c filter? (options.coveringFilter filter?) hready
  obtain ⟨hperm, horder⟩ := filter_searcher_perm hserves hdistinct hready hcovers
  have hscan := hperm.map options.reduce
  have hnodup := ((hscan.map (·.uid)).nodup_iff).2 (nodup_uid_scan hdistinct c filter? options)
  refine ⟨_, result, w', hscan, hnodup, fun hl => congrArg _ (horder hl), fun handler hgo s => ?_⟩
  rw [hsearch', Delivery.run_of_goesOn hgo, finished_refine, hfinished, passed_refine]
  have hobject : (⟨c, none⟩ : Normalization).onObject = id := rfl
  rw [hobject, List.map_id]

def staff : List ConnectorObject :=
  [⟨.account, ⟨"u1"⟩, .ofList [.single "mail" (.string "ann@x"), .single "team" (.string "red")]⟩,
    ⟨.group, ⟨"g1"⟩, .ofList [.single "team" (.string "red")]⟩,
    ⟨.account, ⟨"u2"⟩, .ofList [.single "mail" (.string "bob@x"), .single "team" (.string "red")]⟩]

/-- Asks for one account by mail or for those of a team, which the system runs as two queries. -/
def annOrRed : Filter :=
  .any [.leaf .equals (.single "mail" (.string "ann@x")), .leaf .equals (.single "team" (.string "red"))]

theorem search_perm_scan_staff :
    (staff.map (·.uid)).Nodup ∧
    Covers (fun q o => q.accepts o = true) (some annOrRed)
      ((⟨"hr", 1⟩ : Memory.Link).runner.translator .account {} ⟨[("hr", { objects := staff })], []⟩
        (some annOrRed)) ∧
    ∃ delivered result w',
      delivered.Perm (scan staff .account (some annOrRed) {}) ∧
      (delivered.map (·.uid)).Nodup ∧
      ∀ {σ : Type} (handler : Handler ConnectorObject σ), handler.GoesOn → ∀ s,
        (((⟨default, (⟨"hr", 1⟩ : Memory.Link).connector⟩ : Hosted Memory.Site).search .account (some annOrRed)
          {} ⟨[("hr", { objects := staff })], []⟩).run handler).run s =
            ((.ok result, w'), handler.after delivered s) := by
  have hd : (staff.map (·.uid)).Nodup := by decide
  have hc : Covers (fun q o => q.accepts o = true) (some annOrRed)
      ((⟨"hr", 1⟩ : Memory.Link).runner.translator .account {} ⟨[("hr", { objects := staff })], []⟩
        (some annOrRed)) := by
    refine .inr fun o ho => ?_
    have hq : (⟨"hr", 1⟩ : Memory.Link).runner.translator .account {} ⟨[("hr", { objects := staff })], []⟩
        (some annOrRed) = [.leaf .equals (.single "mail" (.string "ann@x")),
          .leaf .equals (.single "team" (.string "red"))] := rfl
    rw [hq]
    simpa [annOrRed] using ho
  obtain ⟨delivered, result, w', hperm, hnodup, -, hrun⟩ := search_perm_scan
    (h := ⟨default, (⟨"hr", 1⟩ : Memory.Link).connector⟩) (w := ⟨[("hr", { objects := staff })], []⟩)
    rfl rfl (Memory.Link.serves ⟨"hr", 1⟩ staff) ⟨rfl, rfl, rfl, rfl, rfl⟩ hd hc
  exact ⟨hd, hc, delivered, result, w', hperm, hnodup, hrun⟩

end Hosted

end Provisioning
