/- A request means what its options and conditions demand.

   Every entry of the options is an option, a condition on the range key, or a condition of the filter; the
   expressions of the request, read by the grammar, demand exactly this. -/

import TableQuery.Proofs.Request.Meaning
import TableQuery.Proofs.Request.Selection

set_option autoImplicit false
set_option relaxedAutoImplicit false

namespace TableQuery

/-- The attribute that an option names; an option that is missing or empty names the given one. -/
def attributeOf (option : Value) (fallback : Text) : Text :=
  match option with
  | .text (c :: rest) => c :: rest
  | _ => fallback

namespace KeyConditions

/-- The operator of a range condition, if a name is one. -/
def rangeWord? (name : Text) : Option Text := rangeOperator? (.text name)

private theorem rest_ofTexts (entries : List (Text × Value)) :
    rest (Record.ofTexts entries) =
      Record.ofTexts (entries.filter fun entry => (rangeWord? entry.1).isNone) := by
  rw [rest, Record.ofTexts, Record.ofTexts, List.filter_map]
  rfl

/-- The range conditions among entries, under the names of their operators. -/
def ranges (entries : List (Text × Value)) : List (Text × Value) :=
  entries.filterMap fun entry => (rangeWord? entry.1).map fun operator => (operator, entry.2)

private theorem range_ofTexts (entries : List (Text × Value)) :
    range (Record.ofTexts entries) = Record.ofTexts (ranges entries) := by
  rw [range, Record.ofTexts, Record.ofTexts, ranges, List.filterMap_map, List.map_filterMap]
  congr 1
  funext entry
  change (rangeWord? entry.1).map _ = ((rangeWord? entry.1).map _).map _
  rw [Option.map_map]
  rfl

private theorem firstPresent_eq {option : Value} (h : option = .null ∨ ∃ t, option = .text t)
    (fallback : Text) : firstPresent option (.text fallback) = .text (attributeOf option fallback) := by
  rcases h with rfl | ⟨_ | ⟨c, rest⟩, rfl⟩ <;> rfl

private theorem firstPresent_eq_of_truthy {option fallback : Value} {key : Option Text}
    (h : option = .null ∨ ∃ t, option = .text t) (given : fallback = key.elim .null .text)
    (present : (firstPresent option fallback).isTruthy = true) :
    firstPresent option fallback = .text (attributeOf option (key.getD [])) := by
  subst given
  cases key with
  | some name => exact firstPresent_eq h name
  | none =>
    rcases h with rfl | ⟨_ | ⟨c, rest⟩, rfl⟩
    · cases present
    · cases present
    · rfl

/-- The conditions on keys: equality on the hash key, and the range conditions on the range key if there are
any. -/
def onKeys (hashName rangeName : Text) (hashValue : Value) (ranges : List (Text × Value)) :
    List (Text × Value) :=
  (hashName, .map [(.text "eq", hashValue)]) ::
    if ranges.isEmpty then [] else [(rangeName, .map (Record.ofTexts ranges))]

private theorem ofSelection_eq_ok {table : Table} {selection : Selection} {entries : List (Text × Value)}
    {conditions : Record} (listed : selection.conditions = Record.ofTexts entries)
    (hash : selection.options.get "hash_key" = .null ∨ ∃ t, selection.options.get "hash_key" = .text t)
    (range : selection.options.get "range_key" = .null ∨
      ∃ t, selection.options.get "range_key" = .text t)
    (h : ofSelection table selection = .ok conditions) :
    let hashName := attributeOf (selection.options.get "hash_key") table.hashKey
    let rangeName := attributeOf (selection.options.get "range_key") (table.rangeKey.getD [])
    conditions = Record.ofTexts
        (onKeys hashName rangeName (selection.options.get "hash_value") (ranges entries)) ∧
      (ranges entries ≠ [] → rangeName ≠ hashName) := by
  intro hashName rangeName
  unfold ofSelection at h
  dsimp only at h
  rw [listed, firstPresent_eq hash, range_ofTexts] at h
  generalize hkey : firstPresent (selection.options.get "range_key") _ = rangeKey at h
  have named (present : rangeKey.isTruthy = true) : rangeKey = .text rangeName := by
    rw [← hkey] at present ⊢
    exact firstPresent_eq_of_truthy range (by cases table.rangeKey <;> rfl) present
  split at h
  · cases h
  obtain ⟨hashKey, asked, h⟩ := bind_eq_ok.mp h
  obtain rfl : .text hashName = hashKey := Except.ok.inj asked
  cases hranges : ranges entries with
  | nil =>
    rw [hranges] at h
    obtain rfl := pure_eq_ok.mp h
    exact ⟨rfl, fun some_range => absurd rfl some_range⟩
  | cons entry others =>
    rw [hranges] at h
    simp only [Record.ofTexts, List.map_cons] at h
    split at h
    · cases h
    rename_i present
    obtain rfl := named (by simpa using present)
    obtain ⟨same, compared, h⟩ := bind_eq_ok.mp h
    split at h
    · cases h
    rename_i different
    obtain ⟨key, asked', h⟩ := bind_eq_ok.mp h
    obtain rfl : .text rangeName = key := Except.ok.inj asked'
    obtain rfl := pure_eq_ok.mp h
    refine ⟨rfl, fun _ equal_names => different ?_⟩
    rw [equal_names, equal, Value.same, beq_self_eq_true] at compared
    exact (Except.ok.inj compared).symm

private theorem rangeWord?_of_option {name : Text} (option : name ∈ Operation.queryOptions) :
    rangeWord? name = none := by
  have options : ∀ name ∈ Operation.queryOptions, rangeWord? name = none := by
    simp [Operation.queryOptions, rangeWord?, rangeOperator?, rangeOperators]
  exact options name option

private theorem ranges_filter (entries : List (Text × Value)) :
    ranges (entries.filter fun entry => entry.1 ∉ Operation.queryOptions) = ranges entries := by
  induction entries with
  | nil => rfl
  | cons entry entries ih =>
    by_cases option : entry.1 ∈ Operation.queryOptions
    · rw [List.filter_cons_of_neg (by simpa using option), ih]
      simp [ranges, rangeWord?_of_option option]
    · rw [List.filter_cons_of_pos (by simpa using option), ranges, List.filterMap_cons, ranges,
        List.filterMap_cons]
      rw [ranges, ranges] at ih
      rw [ih]

private theorem demands_onKeys (hashName rangeName : Text) (hashValue : Value) (ranges : List (Text × Value)) :
    Demand.ofConditions (onKeys hashName rangeName hashValue ranges) =
      ⟨"eq", hashName, [hashValue]⟩ ::
        ranges.map fun entry => ⟨entry.1, rangeName, Demand.operandsOf entry.1 entry.2⟩ := by
  cases ranges with
  | nil => rfl
  | cons entry others =>
    change _ :: (Demand.ofBody rangeName (.map (Record.ofTexts (entry :: others))) ++ []) = _ :: _
    rw [List.append_nil, Demand.ofBody, Record.ofTexts, List.map_map]
    rfl

end KeyConditions

namespace Draft

open Compiling

theorem runs_parts {key filter : Record} {project : Value} {draft : Draft}
    (h : compile key filter project = .ok draft) :
    Runs (parts key filter project) .fresh (draft.keyCondition, draft.filter, draft.projection)
      draft.tables := by
  unfold compile at h
  unfold Runs
  generalize (parts key filter project).runOn .fresh = result at h ⊢
  obtain ⟨outcome, tables⟩ := result
  obtain ⟨made, rfl, compiled⟩ := bind_eq_ok.mp h
  obtain rfl := pure_eq_ok.mp compiled
  rfl

/-- The parts of a draft mean what they were compiled from, over the tables of the draft. -/
private theorem compile_eq_ok {key filter : List (Text × Value)} {project : Value} {draft : Draft}
    (h : compile (Record.ofTexts key) (Record.ofTexts filter) project = .ok draft) :
    draft.tables.Extends .fresh ∧ (∀ condition ∈ filter, Condition.IsBody condition.2) ∧
      List.Forall₂ (fun demand clause => draft.tables.Means clause.phrase demand)
        (Demand.ofConditions key) draft.keyCondition ∧
      List.Forall₂ (fun demand clause => draft.tables.Means clause.phrase demand)
        (Demand.ofConditions filter) draft.filter ∧
      ∃ names, Projection.Lists project names ∧
        List.Forall₂ (fun name t => draft.tables.names.resolve? t = some name) names
          draft.projection := by
  obtain ⟨keyCondition, first, compiledKey, run⟩ := runs_bind.mp (runs_parts h)
  obtain ⟨filterClauses, second, compiledFilter, run⟩ := runs_bind.mp run
  obtain ⟨projection, third, compiledProjection, run⟩ := runs_bind.mp run
  obtain ⟨same, final⟩ := runs_pure.mp run
  obtain ⟨rfl, rfl, rfl⟩ : keyCondition = draft.keyCondition ∧ filterClauses = draft.filter ∧
    projection = draft.projection := by simpa using same
  obtain ⟨extends_fresh, -, keyMeaning⟩ := Condition.runs_compileRecord compiledKey
  obtain ⟨extends_first, bodies, filterMeaning⟩ := Condition.runs_compileRecord compiledFilter
  obtain ⟨extends_second, names, lists, stand⟩ := Projection.runs_compile compiledProjection
  rw [← final]
  exact ⟨(extends_second.trans extends_first).trans extends_fresh, bodies,
    keyMeaning.imp fun _ _ meaning => meaning.extend (extends_second.trans extends_first),
    filterMeaning.imp fun _ _ meaning => meaning.extend extends_second, names, lists, stand⟩

end Draft

namespace Request

def hashAttribute (table : Table) (entries : List (Text × Value)) : Text :=
  attributeOf ((Record.ofTexts entries).get "hash_key") table.hashKey

def rangeAttribute (table : Table) (entries : List (Text × Value)) : Text :=
  attributeOf ((Record.ofTexts entries).get "range_key") (table.rangeKey.getD [])

/-- What entries demand of the keys: a query wants one value of the hash key, and of the range key what its
range conditions say, in order; a scan wants nothing. -/
def keyDemands (operation : Operation) (table : Table) (entries : List (Text × Value)) : List Demand :=
  match operation with
  | .query =>
    ⟨"eq", hashAttribute table entries, [(Record.ofTexts entries).get "hash_value"]⟩ ::
      (KeyConditions.ranges entries).map fun entry =>
        ⟨entry.1, rangeAttribute table entries, Demand.operandsOf entry.1 entry.2⟩
  | .scan => []

/-- The entries that are neither options nor range conditions. -/
def filterEntries (operation : Operation) (entries : List (Text × Value)) : List (Text × Value) :=
  entries.filter fun entry => entry.1 ∉ operation.options ∧ KeyConditions.rangeWord? entry.1 = none

/-- The options that name keys, where the operation has them, are texts or absent. -/
def KeysNamed (operation : Operation) (entries : List (Text × Value)) : Prop :=
  ∀ entry ∈ entries, entry.1 ∈ operation.options →
    entry.1 = Text.ofString "hash_key" ∨ entry.1 = Text.ofString "range_key" →
      entry.2 = .null ∨ ∃ t, entry.2 = .text t

private theorem KeysNamed.get {entries : List (Text × Value)} (named : KeysNamed .query entries) {name : Text}
    (key : name = Text.ofString "hash_key" ∨ name = Text.ofString "range_key") :
    (Record.ofTexts entries).get name = .null ∨ ∃ t, (Record.ofTexts entries).get name = .text t := by
  have option : name ∈ Operation.queryOptions := by
    rcases key with rfl | rfl <;> simp [Operation.queryOptions]
  rcases Record.get_ofTexts_cases entries name with null | ⟨value, member, got⟩
  · exact .inl null
  · rw [got]
    exact named (name, value) member option key

end Request

namespace Draft

open Request

/-- What the draft of an operation must be to mean what the entries demand. -/
structure Faithful (operation : Operation) (table : Table) (entries : List (Text × Value))
    (draft : Draft) : Prop where
  tables : draft.tables.Extends .fresh
  keys : List.Forall₂ (fun demand clause => draft.tables.Means clause.phrase demand)
    (keyDemands operation table entries) draft.keyCondition
  filter : List.Forall₂ (fun demand clause => draft.tables.Means clause.phrase demand)
    (Demand.ofConditions (filterEntries operation entries)) draft.filter
  projection : ∃ names, Projection.Lists ((Record.ofTexts entries).get "project") names ∧
    List.Forall₂ (fun name t => draft.tables.names.resolve? t = some name) names draft.projection
  keysApart : ∀ demand ∈ (keyDemands operation table entries).tail,
    demand.subject ≠ hashAttribute table entries
  accounted : ∀ entry ∈ entries, entry.1 ∈ operation.options ∨
    (operation = .query ∧ KeyConditions.rangeWord? entry.1 ≠ none) ∨
    (entry ∈ filterEntries operation entries ∧ Condition.IsBody entry.2)

private theorem accounted_of_bodies {operation : Operation} {entries : List (Text × Value)}
    (bodies : ∀ entry ∈ filterEntries operation entries, Condition.IsBody entry.2)
    (ranged : ∀ entry ∈ entries, entry.1 ∉ operation.options →
      KeyConditions.rangeWord? entry.1 ≠ none → operation = .query) :
    ∀ entry ∈ entries, entry.1 ∈ operation.options ∨
      (operation = .query ∧ KeyConditions.rangeWord? entry.1 ≠ none) ∨
      (entry ∈ filterEntries operation entries ∧ Condition.IsBody entry.2) := by
  intro entry member
  by_cases option : entry.1 ∈ operation.options
  · exact .inl option
  by_cases word : KeyConditions.rangeWord? entry.1 = none
  · have kept : entry ∈ filterEntries operation entries :=
      List.mem_filter.mpr ⟨member, decide_eq_true ⟨option, word⟩⟩
    exact .inr (.inr ⟨kept, bodies entry kept⟩)
  · exact .inr (.inl ⟨ranged entry member option word, word⟩)

private theorem ofQuery_faithful {table : Table} {entries : List (Text × Value)} {draft : Draft}
    (named : KeysNamed .query entries)
    (h : ofQuery table (Selection.ofTexts Operation.queryOptions entries) = .ok draft) :
    Faithful .query table entries draft := by
  have get (name : Text) (option : name ∈ Operation.queryOptions) :=
    Selection.get_options option entries
  have hash := get "hash_key" (by simp [Operation.queryOptions])
  have range := get "range_key" (by simp [Operation.queryOptions])
  obtain ⟨keyConditions, hkeys, h⟩ := bind_eq_ok.mp h
  obtain ⟨rfl, apart⟩ := KeyConditions.ofSelection_eq_ok rfl
    (by rw [hash]; exact named.get (.inl rfl)) (by rw [range]; exact named.get (.inr rfl)) hkeys
  rw [hash, range, get "hash_value" (by simp [Operation.queryOptions]),
    get "project" (by simp [Operation.queryOptions]), KeyConditions.ranges_filter] at h
  rw [hash, range, KeyConditions.ranges_filter] at apart
  have filtered : KeyConditions.rest (Selection.ofTexts Operation.queryOptions entries).conditions =
      Record.ofTexts (filterEntries .query entries) := by
    rw [Selection.ofTexts, KeyConditions.rest_ofTexts, List.filter_filter, filterEntries]
    congr 2
    funext entry
    cases KeyConditions.rangeWord? entry.1 <;> simp [Operation.options]
  rw [filtered] at h
  obtain ⟨tables, bodies, keys, filter, projection⟩ := compile_eq_ok h
  rw [KeyConditions.demands_onKeys] at keys
  refine ⟨tables, keys, filter, projection, ?_, accounted_of_bodies bodies fun _ _ _ _ => rfl⟩
  intro demand member
  obtain ⟨range, hrange, rfl⟩ := List.mem_map.mp member
  exact apart (List.ne_nil_of_mem hrange)

private theorem unranged_of_ofScan {entries : List (Text × Value)} {draft : Draft}
    (h : ofScan (Selection.ofTexts Operation.scanOptions entries) = .ok draft) :
    ∀ entry ∈ entries, entry.1 ∉ Operation.scanOptions → KeyConditions.rangeWord? entry.1 = none := by
  intro entry member condition
  unfold ofScan at h
  dsimp only at h
  split at h
  · rename_i empty
    rw [List.isEmpty_iff, List.filterMap_eq_nil_iff] at empty
    have kept : entry ∈ entries.filter fun entry => entry.1 ∉ Operation.scanOptions :=
      List.mem_filter.mpr ⟨member, decide_eq_true condition⟩
    have checked := empty _ (List.mem_map_of_mem kept)
    dsimp only at checked
    split at checked
    · cases checked
    · rename_i unranged
      exact Option.not_isSome_iff_eq_none.mp unranged
  · cases h

private theorem ofScan_faithful {table : Table} {entries : List (Text × Value)} {draft : Draft}
    (h : ofScan (Selection.ofTexts Operation.scanOptions entries) = .ok draft) :
    Faithful .scan table entries draft := by
  have unranged := unranged_of_ofScan h
  have conditions : (Selection.ofTexts Operation.scanOptions entries).conditions =
      Record.ofTexts (filterEntries .scan entries) := by
    have scanned : entries.filter (fun entry => entry.1 ∉ Operation.scanOptions) =
        filterEntries .scan entries := by
      apply List.filter_congr
      intro entry member
      rw [decide_eq_decide]
      constructor
      · intro condition
        exact ⟨condition, unranged entry member condition⟩
      · exact And.left
    rw [Selection.ofTexts, scanned]
  unfold ofScan at h
  dsimp only at h
  split at h
  · rw [Selection.get_options (by simp [Operation.scanOptions]), conditions] at h
    have compiled : compile (Record.ofTexts []) (Record.ofTexts (filterEntries .scan entries))
        ((Record.ofTexts entries).get "project") = .ok draft := h
    obtain ⟨tables, bodies, keys, filter, projection⟩ := compile_eq_ok compiled
    have accounted := accounted_of_bodies bodies fun entry member condition ranged =>
      absurd (unranged entry member condition) ranged
    exact ⟨tables, keys, filter, projection, fun _ member => absurd member List.not_mem_nil, accounted⟩
  · cases h

end Draft

namespace Request

private theorem faithful_of_build [DepthLimits] {operation : Operation} {table : Table} {entries : List (Text × Value)}
    {request : Record} (apart : (entries.map Prod.fst).Nodup) (named : KeysNamed operation entries)
    (built : build operation table (.map (Record.ofTexts entries)) = .ok request) :
    ∃ draft, Draft.Faithful operation table entries draft ∧
      ∃ options, ofDraft table options draft = .ok request := by
  obtain ⟨selection, draft, selected, drafted, written⟩ := build_eq_ok built
  obtain rfl : Selection.ofTexts operation.options entries = selection :=
    Except.ok.inj ((Selection.ofValue_ofTexts operation.options apart).symm.trans selected)
  refine ⟨draft, ?_, _, written⟩
  cases operation with
  | query => exact Draft.ofQuery_faithful named drafted
  | scan => exact Draft.ofScan_faithful drafted

/-- The expressions of a request, read by the grammar with the tokens resolved by its tables, demand exactly
what the entries do: of the keys in the key condition, of other attributes in the filter, each in the order of
the entries and with its literals in wire form; and the projection has the listed names in order. -/
theorem build_faithful [DepthLimits] {operation : Operation} {table : Table} {entries : List (Text × Value)}
    {request : Record} (apart : (entries.map Prod.fst).Nodup) (named : KeysNamed operation entries)
    (built : build operation table (.map (Record.ofTexts entries)) = .ok request) :
    (∃ wired, (keyDemands operation table entries).mapM Demand.onWire = .ok wired ∧
      ∀ found, Demands request "KeyConditionExpression" found ↔ found = wired) ∧
    (∃ wired, (Demand.ofConditions (filterEntries operation entries)).mapM Demand.onWire = .ok wired ∧
      ∀ found, Demands request "FilterExpression" found ↔ found = wired) ∧
    (∃ names, Projection.Lists ((Record.ofTexts entries).get "project") names ∧
      ∀ found, Projects request found ↔ found = names) ∧
    (∀ demand ∈ (keyDemands operation table entries).tail,
      demand.subject ≠ hashAttribute table entries) ∧
    ∀ entry ∈ entries, entry.1 ∈ operation.options ∨
      (operation = .query ∧ KeyConditions.rangeWord? entry.1 ≠ none) ∨
      (entry ∈ filterEntries operation entries ∧ Condition.IsBody entry.2) := by
  obtain ⟨draft, faithful, options, written⟩ := faithful_of_build apart named built
  refine ⟨demands_iff faithful.tables written ?_ faithful.keys,
    demands_iff faithful.tables written ?_ faithful.filter, ?_, faithful.keysApart, faithful.accounted⟩
  · simp [wireExpressions]
  · simp [wireExpressions]
  · obtain ⟨names, lists, stand⟩ := faithful.projection
    exact ⟨names, lists, projects_iff faithful.tables written stand⟩

def orders : Table := { name := "orders", hashKey := "customer", rangeKey := some "day" }

/-- A query with a condition on the range key between two others, and with names in several places. -/
def recentOrders : List (Text × Value) :=
  [("status", .map [(.text "ne", .text "void"), (.text "not_null", .bool true)]), ("hash_value", .text "c1"),
    ("range_between", .tuple [.int 1, .int 31]), ("kind", .map [(.text "in", .list [.text "a", .text "b"])]),
    ("project", .list [.text "status", .text "day"])]

theorem build_faithful_of_recentOrders :
    (recentOrders.map Prod.fst).Nodup ∧ KeysNamed .query recentOrders ∧
      ∃ request, build .query orders (.map (Record.ofTexts recentOrders)) = .ok request ∧
        (∀ found, Demands request "KeyConditionExpression" found ↔
          found = [⟨"eq", "customer", [.map [(.text "S", .text "c1")]]⟩,
            ⟨"between", "day", [.map [(.text "N", .text "1")], .map [(.text "N", .text "31")]]⟩]) ∧
        (∀ found, Demands request "FilterExpression" found ↔
          found = [⟨"ne", "status", [.map [(.text "S", .text "void")]]⟩, ⟨"not_null", "status", []⟩,
            ⟨"in", "kind", [.map [(.text "S", .text "a")], .map [(.text "S", .text "b")]]⟩]) ∧
        ∀ found, Projects request found ↔ found = ["status", "day"] := by
  have apart : (recentOrders.map Prod.fst).Nodup := by simp [recentOrders]
  have named : KeysNamed .query recentOrders := by
    intro entry member _ key
    simp only [recentOrders, List.mem_cons, List.not_mem_nil, or_false] at member
    rcases member with rfl | rfl | rfl | rfl | rfl <;> simp at key
  have succeeds : (build .query orders (.map (Record.ofTexts recentOrders))).isOk = true := by decide +kernel
  cases built : build .query orders (.map (Record.ofTexts recentOrders)) with
  | error fault =>
    rw [built] at succeeds
    cases succeeds
  | ok request =>
    obtain ⟨⟨keys, keysWired, readKeys⟩, ⟨filter, filterWired, readFilter⟩, ⟨names, lists, readNames⟩, -⟩ :=
      build_faithful apart named built
    obtain rfl : _ = keys := Except.ok.inj keysWired
    obtain rfl : _ = filter := Except.ok.inj filterWired
    obtain rfl := lists.unique (.each rfl (fun _ => Value.noConfusion) rfl (.cons rfl (.cons rfl .nil)))
    exact ⟨apart, named, request, rfl, readKeys, readFilter, readNames⟩

end Request

end TableQuery
