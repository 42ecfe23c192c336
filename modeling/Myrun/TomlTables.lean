import Myrun.Toml

namespace Myrun

/-!
# Tables and headers

A tree of tables is written down as a sequence of headers and assignments: the
values of a table come first, then its sub-tables one after the other.  Applied
in that order to an empty document, the headers and assignments build the tree.
The proof keeps an eye on one table at a time: a context is the rest of the
document around it, and a path leads to the table whatever it holds.
-/

namespace Toml

/-! ## Trees -/

mutual

/-- A table: values, and what is written under headers of its own. -/
inductive Table where
  | mk (values : List (String × Json)) (subs : List (String × Sub))

/-- A sub-table or a nonempty array of tables. -/
inductive Sub where
  | table (t : Table)
  | tables (first : Table) (more : List Table)

end

mutual

/-- The tree as the reader represents it. -/
def Table.toJson : Table → Json
  | .mk values subs => .obj (values ++ subsJson subs)

def Sub.toJson : Sub → Json
  | .table t => t.toJson
  | .tables first more => .arr (first.toJson :: tablesJson more)

def subsJson : List (String × Sub) → List (String × Json)
  | [] => []
  | (key, sub) :: subs => (key, sub.toJson) :: subsJson subs

def tablesJson : List Table → List Json
  | [] => []
  | t :: more => t.toJson :: tablesJson more

end

mutual

/-- No table has two entries of one name. -/
def Table.Distinct : Table → Prop
  | .mk values subs =>
      (values.map Prod.fst ++ subs.map Prod.fst).Nodup ∧ SubsDistinct subs

def Sub.Distinct : Sub → Prop
  | .table t => t.Distinct
  | .tables first more => first.Distinct ∧ TablesDistinct more

def SubsDistinct : List (String × Sub) → Prop
  | [] => True
  | (_, sub) :: subs => sub.Distinct ∧ SubsDistinct subs

def TablesDistinct : List Table → Prop
  | [] => True
  | t :: more => t.Distinct ∧ TablesDistinct more

end

/-! ## Headers and assignments -/

/-- What a line says. -/
inductive Event where
  | assign (key : String) (value : Json)
  | table (path : List String)
  | tables (path : List String)

/-- What a line does to the document. -/
def Document.apply (doc : Document) : Event → Except String Document
  | .assign key value =>
      (setIn doc.root doc.cur key value).map (⟨·, doc.cur⟩)
  | .table path => (ensureTable doc.root path).map (⟨·, path⟩)
  | .tables path => (pushArrayTable doc.root path).map (⟨·, path⟩)

/-- What a sequence of lines does to the document. -/
def Document.applyAll (doc : Document) : List Event → Except String Document
  | [] => .ok doc
  | event :: events => do
      let doc ← doc.apply event
      doc.applyAll events

mutual

/-- The lines of a table after its header. -/
inductive TableEvents : List String → Table → List Event → Prop where
  | mk {path : List String} {values : List (String × Json)}
      {subs : List (String × Sub)} {events : List Event}
      (below : SubsEvents path subs events) :
      TableEvents path (.mk values subs)
        (values.map (fun entry => .assign entry.1 entry.2) ++ events)

/-- The lines of the sub-tables of a table.  A sub-table without values of its
own does not need a header, if a header below it names it. -/
inductive SubsEvents :
    List String → List (String × Sub) → List Event → Prop where
  | nil {path : List String} :
      SubsEvents path [] []
  | table {path : List String} {key : String} {t : Table}
      {subs : List (String × Sub)} {events others : List Event}
      (own : TableEvents (path ++ [key]) t events)
      (next : SubsEvents path subs others) :
      SubsEvents path ((key, .table t) :: subs)
        (.table (path ++ [key]) :: (events ++ others))
  | headless {path : List String} {key : String}
      {sub : String × Sub} {below : List (String × Sub)}
      {subs : List (String × Sub)} {events others : List Event}
      (own : SubsEvents (path ++ [key]) (sub :: below) events)
      (next : SubsEvents path subs others) :
      SubsEvents path ((key, .table (.mk [] (sub :: below))) :: subs)
        (events ++ others)
  | tables {path : List String} {key : String} {first : Table}
      {more : List Table} {subs : List (String × Sub)}
      {events others : List Event}
      (own : ElementEvents (path ++ [key]) (first :: more) events)
      (next : SubsEvents path subs others) :
      SubsEvents path ((key, .tables first more) :: subs) (events ++ others)

/-- The lines of the elements of an array of tables. -/
inductive ElementEvents : List String → List Table → List Event → Prop where
  | nil {path : List String} :
      ElementEvents path [] []
  | cons {path : List String} {t : Table} {more : List Table}
      {events others : List Event}
      (own : TableEvents path t events)
      (next : ElementEvents path more others) :
      ElementEvents path (t :: more) (.tables path :: (events ++ others))

end

private theorem applyAll_append
    (doc : Document)
    (first second : List Event) :
    doc.applyAll (first ++ second) =
      doc.applyAll first >>= fun doc => doc.applyAll second := by
  induction first generalizing doc with
  | nil =>
      rfl
  | cons event first inductionHypothesis =>
      rw [List.cons_append, Document.applyAll, Document.applyAll]
      cases doc.apply event with
      | error message => rfl
      | ok next => exact inductionHypothesis next

/-! ## Members -/

private theorem findMember_last
    {key : String}
    {members : List (String × Json)}
    (fresh : key ∉ members.map Prod.fst)
    (value : Json) :
    Json.findMember key (members ++ [(key, value)]) = some value := by
  induction members with
  | nil =>
      simp [Json.findMember]
  | cons member members inductionHypothesis =>
      simp only [List.map_cons, List.mem_cons, not_or] at fresh
      simp [Json.findMember, Ne.symm fresh.1, inductionHypothesis fresh.2]

private theorem findMember_fresh
    {key : String}
    {members : List (String × Json)}
    (fresh : key ∉ members.map Prod.fst) :
    Json.findMember key members = none := by
  induction members with
  | nil =>
      rfl
  | cons member members inductionHypothesis =>
      simp only [List.map_cons, List.mem_cons, not_or] at fresh
      simp [Json.findMember, Ne.symm fresh.1, inductionHypothesis fresh.2]

private theorem setMember_last
    {key : String}
    {members : List (String × Json)}
    (fresh : key ∉ members.map Prod.fst)
    (value other : Json) :
    Json.setMember key other (members ++ [(key, value)]) =
      members ++ [(key, other)] := by
  induction members with
  | nil =>
      simp [Json.setMember]
  | cons member members inductionHypothesis =>
      simp only [List.map_cons, List.mem_cons, not_or] at fresh
      simp [Json.setMember, Ne.symm fresh.1, inductionHypothesis fresh.2]

/-! ## Contexts -/

/-- The path leads to the hole of the context, whatever table is in it. -/
def Focus (path : List String) (context : Json → Json) : Prop :=
  ∀ change node rest, isTable node = true →
    updateAt change (context node) (path ++ rest) =
      (updateAt change node rest).map context

private theorem Focus.root : Focus [] id := by
  intro change node rest _
  rw [List.nil_append, id]
  cases updateAt change node rest with
  | error message => rfl
  | ok changed => rfl

section Contexts

variable {path : List String} {context : Json → Json}

/-- Into a sub-table. -/
theorem Focus.member
    (focus : Focus path context)
    {key : String}
    {members : List (String × Json)}
    (fresh : key ∉ members.map Prod.fst) :
    Focus (path ++ [key])
      (fun node => context (.obj (members ++ [(key, node)]))) := by
  intro change node rest table
  have found : (Json.obj (members ++ [(key, node)])).get key = some node :=
    findMember_last fresh node
  have kept : withTable (.obj (members ++ [(key, node)])) key =
      .obj (members ++ [(key, node)]) := by
    rw [withTable, found]
  rw [List.append_assoc, focus change _ _ rfl, List.singleton_append,
    updateAt]
  simp only [kept, found]
  cases node with
  | obj inner =>
      simp only [table, ↓reduceIte]
      cases updateAt change (.obj inner) rest with
      | error message =>
          rfl
      | ok changed =>
          simp [bind, Except.bind, pure, Except.pure, Except.map, Json.set,
            setMember_last fresh]
  | _ => cases table

/-- Into the last element of an array of tables. -/
theorem Focus.element
    (focus : Focus path context)
    {key : String}
    {members : List (String × Json)}
    (fresh : key ∉ members.map Prod.fst)
    (done : List Json) :
    Focus (path ++ [key])
      (fun node => context
        (.obj (members ++ [(key, .arr (done ++ [node]))]))) := by
  intro change node rest table
  have found : (Json.obj (members ++ [(key, .arr (done ++ [node]))])).get key =
      some (.arr (done ++ [node])) :=
    findMember_last fresh _
  have kept : withTable (.obj (members ++ [(key, .arr (done ++ [node]))]))
      key = .obj (members ++ [(key, .arr (done ++ [node]))]) := by
    rw [withTable, found]
  rw [List.append_assoc, focus change _ _ rfl, List.singleton_append,
    updateAt]
  simp only [kept, found, List.getLast?_append, List.getLast?_singleton,
    Option.some_or, table, ↓reduceIte, List.dropLast_concat]
  cases updateAt change node rest with
  | error message =>
      rfl
  | ok changed =>
      simp [bind, Except.bind, pure, Except.pure, Except.map, Json.set,
        setMember_last fresh]

/-- A table that is missing is made on the way. -/
theorem updateAt_missing
    {key : String}
    {members : List (String × Json)}
    (fresh : key ∉ members.map Prod.fst)
    (change : Json → Except String Json)
    (rest : List String) :
    updateAt change (.obj members) (key :: rest) =
      updateAt change (.obj (members ++ [(key, .obj [])])) (key :: rest) := by
  have missing : (Json.obj members).get key = none := findMember_fresh fresh
  have found : (Json.obj (members ++ [(key, .obj [])])).get key =
      some (.obj []) :=
    findMember_last fresh _
  have made : withTable (.obj members) key =
      .obj (members ++ [(key, .obj [])]) := by
    rw [withTable, missing]
    exact congrArg Json.obj (Json.setMember_of_not_mem fresh)
  have kept : withTable (.obj (members ++ [(key, .obj [])])) key =
      .obj (members ++ [(key, .obj [])]) := by
    rw [withTable, found]
  rw [updateAt, updateAt, made, kept]

/-! ## Events in a context -/

/-- An assignment to the table in the hole. -/
theorem Focus.assign
    (focus : Focus path context)
    {key : String}
    {members : List (String × Json)}
    (fresh : key ∉ members.map Prod.fst)
    (value : Json) :
    Document.apply ⟨context (.obj members), path⟩ (.assign key value) =
      .ok ⟨context (.obj (members ++ [(key, value)])), path⟩ := by
  have changed := focus (fun table => .ok (table.set key value))
    (.obj members) [] rfl
  rw [List.append_nil] at changed
  rw [Document.apply, setIn, changed, updateAt]
  simp [Except.map, Json.set, Json.setMember_of_not_mem fresh]

private theorem Focus.assignAll
    (focus : Focus path context)
    {members values : List (String × Json)}
    (distinct : (members.map Prod.fst ++ values.map Prod.fst).Nodup) :
    Document.applyAll ⟨context (.obj members), path⟩
        (values.map fun entry => .assign entry.1 entry.2) =
      .ok ⟨context (.obj (members ++ values)), path⟩ := by
  induction values generalizing members with
  | nil =>
      simp [Document.applyAll]
  | cons entry values inductionHypothesis =>
      obtain ⟨key, value⟩ := entry
      rw [List.map_cons] at distinct
      have fresh : key ∉ members.map Prod.fst :=
        fun member => (List.nodup_append.mp distinct).2.2 key member key
          List.mem_cons_self rfl
      have later : ((members ++ [(key, value)]).map Prod.fst ++
          values.map Prod.fst).Nodup := by
        simpa using distinct
      have rest := inductionHypothesis later
      rw [List.append_assoc, List.singleton_append] at rest
      rw [List.map_cons, Document.applyAll, focus.assign fresh]
      exact rest

/-- The header of a new sub-table. -/
theorem Focus.header
    (focus : Focus path context)
    {key : String}
    {members : List (String × Json)}
    (fresh : key ∉ members.map Prod.fst)
    (cur : List String) :
    Document.apply ⟨context (.obj members), cur⟩ (.table (path ++ [key])) =
      .ok ⟨context (.obj (members ++ [(key, .obj [])])), path ++ [key]⟩ := by
  have inner := (focus.member fresh) .ok (.obj []) [] rfl
  rw [List.append_nil] at inner
  rw [Document.apply, ensureTable, focus .ok _ _ rfl, updateAt_missing fresh,
    ← focus .ok _ _ rfl, inner]
  rfl

/-- The header of the next element of an array of tables. -/
theorem Focus.elementHeader
    (focus : Focus path context)
    {key : String}
    {members : List (String × Json)}
    (fresh : key ∉ members.map Prod.fst)
    (done : List Json)
    (cur : List String) :
    Document.apply ⟨context (.obj (members ++ [(key, .arr done)])), cur⟩
        (.tables (path ++ [key])) =
      .ok ⟨context (.obj (members ++ [(key, .arr (done ++ [.obj []]))])),
        path ++ [key]⟩ := by
  have found : (Json.obj (members ++ [(key, .arr done)])).get key =
      some (.arr done) :=
    findMember_last fresh _
  have changed := focus (pushElement key)
    (.obj (members ++ [(key, .arr done)])) [] rfl
  rw [List.append_nil] at changed
  rw [Document.apply, pushArrayTable, List.getLast?_concat,
    List.dropLast_concat]
  simp only [changed, updateAt, pushElement, found]
  simp [Except.map, Json.set, setMember_last fresh]

/-- The first header of an array of tables makes the array. -/
theorem Focus.firstElement
    (focus : Focus path context)
    {key : String}
    {members : List (String × Json)}
    (fresh : key ∉ members.map Prod.fst)
    (cur : List String) :
    Document.apply ⟨context (.obj members), cur⟩ (.tables (path ++ [key])) =
      Document.apply ⟨context (.obj (members ++ [(key, .arr [])])), cur⟩
        (.tables (path ++ [key])) := by
  have missing : (Json.obj members).get key = none := findMember_fresh fresh
  have found : (Json.obj (members ++ [(key, .arr [])])).get key =
      some (.arr []) :=
    findMember_last fresh _
  have made : (Json.obj members).set key (.arr []) =
      .obj (members ++ [(key, .arr [])]) :=
    congrArg Json.obj (Json.setMember_of_not_mem fresh)
  have before := focus (pushElement key) (.obj members) [] rfl
  have after := focus (pushElement key)
    (.obj (members ++ [(key, .arr [])])) [] rfl
  rw [List.append_nil] at before after
  rw [Document.apply, Document.apply, pushArrayTable, pushArrayTable,
    List.getLast?_concat, List.dropLast_concat]
  simp only [before, after, updateAt, pushElement, missing, found, made]

/-- A header below a sub-table that has none makes the sub-table. -/
theorem Focus.headless
    (focus : Focus path context)
    {key : String}
    {members : List (String × Json)}
    (fresh : key ∉ members.map Prod.fst)
    {event : Event}
    {below : String}
    {more : List String}
    (isHeader : event = .table (path ++ [key] ++ below :: more) ∨
      event = .tables (path ++ [key] ++ below :: more))
    (cur : List String) :
    Document.apply ⟨context (.obj members), cur⟩ event =
      Document.apply ⟨context (.obj (members ++ [(key, .obj [])])), cur⟩
        event := by
  have same (change : Json → Except String Json) (rest : List String) :
      updateAt change (context (.obj members)) (path ++ key :: rest) =
        updateAt change (context (.obj (members ++ [(key, .obj [])])))
          (path ++ key :: rest) := by
    rw [focus change _ _ rfl, focus change _ _ rfl, updateAt_missing fresh]
  have split (rest : List String) :
      path ++ [key] ++ rest = path ++ key :: rest := by
    simp
  rcases isHeader with rfl | rfl
  · rw [Document.apply, Document.apply, ensureTable, ensureTable, split, same]
  · have front : (path ++ [key] ++ below :: more).dropLast =
        path ++ key :: (below :: more).dropLast := by
      rw [List.dropLast_append_of_ne_nil (by simp), split]
    rw [Document.apply, Document.apply, pushArrayTable, pushArrayTable, front]
    cases (path ++ [key] ++ below :: more).getLast? with
    | none => rfl
    | some last => simp only [same]

end Contexts

/-! ## Building a tree -/

/-- The lines of sub-tables start with a header below the path. -/
theorem SubsEvents.starts :
    ∀ {path : List String} {sub : String × Sub} {subs : List (String × Sub)}
      {events : List Event},
      SubsEvents path (sub :: subs) events →
      ∃ event rest below more, events = event :: rest ∧
        (event = .table (path ++ below :: more) ∨
          event = .tables (path ++ below :: more))
  | _, _, _, _, @SubsEvents.table _ key _ _ _ _ _ _ =>
      ⟨_, _, key, [], rfl, Or.inl rfl⟩
  | _, _, _, _, @SubsEvents.headless _ key _ _ _ _ others own _ => by
      obtain ⟨event, rest, below, more, rfl, isHeader⟩ := own.starts
      refine ⟨event, rest ++ others, key, below :: more, rfl, ?_⟩
      simpa using isHeader
  | _, _, _, _, @SubsEvents.tables _ key _ _ _ _ _ (.cons _ _) _ =>
      ⟨_, _, key, [], rfl, Or.inr rfl⟩

/-- Two parts that succeed one after the other. -/
theorem applyAll_trans
    {first second : List Event}
    {doc between after : Document}
    (one : doc.applyAll first = .ok between)
    (two : between.applyAll second = .ok after) :
    doc.applyAll (first ++ second) = .ok after := by
  rw [applyAll_append, one]
  exact two

/-- What distinct names say about the first sub-table and the others. -/
theorem fresh_and_later
    {members : List (String × Json)}
    {key : String}
    {names : List String}
    (distinct : (members.map Prod.fst ++ key :: names).Nodup)
    (value : Json) :
    key ∉ members.map Prod.fst ∧
      ((members ++ [(key, value)]).map Prod.fst ++ names).Nodup := by
  constructor
  · intro member
    exact (List.nodup_append.mp distinct).2.2 key member key
      List.mem_cons_self rfl
  · simpa using distinct

mutual

/-- The lines of a table fill the table. -/
theorem TableEvents.run :
    ∀ {path : List String} {t : Table} {events : List Event},
      TableEvents path t events → t.Distinct →
      ∀ {context : Json → Json}, Focus path context →
      ∃ cur, Document.applyAll ⟨context (.obj []), path⟩ events =
        .ok ⟨context t.toJson, cur⟩
  | path, .mk values subs, _, .mk below, distinct, context, focus => by
      rw [Table.Distinct] at distinct
      have names : (([] : List (String × Json)).map Prod.fst ++
          values.map Prod.fst).Nodup := by
        simpa using (List.nodup_append.mp distinct.1).1
      have assigned := focus.assignAll names
      obtain ⟨cur, later⟩ := below.run distinct.2 focus distinct.1 path
      rw [List.nil_append] at assigned
      refine ⟨cur, applyAll_trans assigned ?_⟩
      rw [Table.toJson]
      exact later

/-- The lines of sub-tables add the sub-tables. -/
theorem SubsEvents.run :
    ∀ {path : List String} {subs : List (String × Sub)}
      {events : List Event},
      SubsEvents path subs events → SubsDistinct subs →
      ∀ {context : Json → Json}, Focus path context →
      ∀ {members : List (String × Json)},
        (members.map Prod.fst ++ subs.map Prod.fst).Nodup →
      ∀ cur, ∃ cur',
        Document.applyAll ⟨context (.obj members), cur⟩ events =
          .ok ⟨context (.obj (members ++ subsJson subs)), cur'⟩
  | _, _, _, .nil, _, context, _, members, _, cur => by
      refine ⟨cur, ?_⟩
      simp [Document.applyAll, subsJson]
  | _, _, _, @SubsEvents.table path key t subs _ _ own next, below, context,
      focus, members, distinct, cur => by
      rw [SubsDistinct, Sub.Distinct] at below
      obtain ⟨fresh, later⟩ := fresh_and_later distinct t.toJson
      obtain ⟨cur₁, filled⟩ := own.run below.1 (focus.member fresh)
      obtain ⟨cur₂, others⟩ := next.run below.2 focus later cur₁
      refine ⟨cur₂, ?_⟩
      rw [List.append_assoc, List.singleton_append] at others
      rw [Document.applyAll, focus.header fresh cur, subsJson, Sub.toJson]
      exact applyAll_trans filled others
  | _, _, _, @SubsEvents.headless path key sub subs rest _ _ own next, below,
      context, focus, members, distinct, cur => by
      rw [SubsDistinct, Sub.Distinct, Table.Distinct] at below
      obtain ⟨fresh, later⟩ := fresh_and_later distinct
        (Table.mk [] (sub :: subs)).toJson
      obtain ⟨event, more, name, deeper, shape, isHeader⟩ := own.starts
      have names : (([] : List (String × Json)).map Prod.fst ++
          (sub :: subs).map Prod.fst).Nodup := by
        simpa using below.1.1
      obtain ⟨cur₁, filled⟩ :=
        own.run below.1.2 (focus.member fresh) names cur
      obtain ⟨cur₂, others⟩ := next.run below.2 focus later cur₁
      refine ⟨cur₂, ?_⟩
      rw [List.append_assoc, List.singleton_append] at others
      rw [subsJson, Sub.toJson]
      refine applyAll_trans ?_ others
      rw [shape, Document.applyAll, focus.headless fresh isHeader cur]
      rw [shape, Document.applyAll] at filled
      exact filled
  | _, _, _, @SubsEvents.tables path key first more subs _ _ own next, below,
      context, focus, members, distinct, cur => by
      rw [SubsDistinct, Sub.Distinct] at below
      obtain ⟨fresh, later⟩ := fresh_and_later distinct
        (Sub.tables first more).toJson
      have all : TablesDistinct (first :: more) := by
        rw [TablesDistinct]
        exact below.1
      obtain ⟨cur₁, filled⟩ := own.run all rfl focus fresh [] cur
      obtain ⟨cur₂, others⟩ := next.run below.2 focus later cur₁
      refine ⟨cur₂, ?_⟩
      rw [List.append_assoc, List.singleton_append] at others
      rw [subsJson]
      refine applyAll_trans ?_ others
      cases own with
      | cons _ _ =>
          rw [Document.applyAll, focus.firstElement fresh cur]
          rw [Document.applyAll] at filled
          exact filled

/-- The lines of elements add the elements. -/
theorem ElementEvents.run :
    ∀ {target : List String} {tables : List Table} {events : List Event},
      ElementEvents target tables events → TablesDistinct tables →
      ∀ {path : List String} {key : String}, target = path ++ [key] →
      ∀ {context : Json → Json}, Focus path context →
      ∀ {members : List (String × Json)}, key ∉ members.map Prod.fst →
      ∀ done cur, ∃ cur',
        Document.applyAll
            ⟨context (.obj (members ++ [(key, .arr done)])), cur⟩ events =
          .ok ⟨context (.obj (members ++
            [(key, .arr (done ++ tablesJson tables))])), cur'⟩
  | _, _, _, .nil, _, _, _, _, context, _, members, _, done, cur => by
      refine ⟨cur, ?_⟩
      simp [Document.applyAll, tablesJson]
  | _, _, _, @ElementEvents.cons _ t more _ _ own next, below, path, key,
      target, context, focus, members, fresh, done, cur => by
      subst target
      rw [TablesDistinct] at below
      obtain ⟨cur₁, filled⟩ := own.run below.1 (focus.element fresh done)
      obtain ⟨cur₂, others⟩ := next.run below.2 rfl focus fresh
        (done ++ [t.toJson]) cur₁
      refine ⟨cur₂, ?_⟩
      rw [List.append_assoc, List.singleton_append] at others
      rw [Document.applyAll, focus.elementHeader fresh done cur, tablesJson]
      exact applyAll_trans filled others

end

/-- The lines of a tree build the tree. -/
theorem applyAll_tree
    {t : Table}
    {events : List Event}
    (written : TableEvents [] t events)
    (distinct : t.Distinct) :
    ∃ cur, Document.applyAll ⟨.obj [], []⟩ events = .ok ⟨t.toJson, cur⟩ :=
  written.run distinct Focus.root

end Toml

end Myrun
