import Pagescript.Config
import Pagescript.Proofs.Limits
import Pagescript.Proofs.Positions
/-!
# What a TOML document holds

A document holds flags, numbers, texts, dates and times, and arrays and tables of these.  Nothing is
absent in it and nothing foreign, however deep.  Every step of the reader keeps this of the tables
that have been built up.
-/

namespace Pagescript.Toml

/-- The values that can stand in a document. -/
inductive Held : Value → Prop where
  | bool (b : Bool) : Held (.bool b)
  | int (i : Int) : Held (.int i)
  | float (x : Binary64) : Held (.float x)
  | text (s : String) : Held (.text s)
  | date (d : Date) : Held (.date d)
  | time (t : TimeOfDay) : Held (.time t)
  | moment (d : Date) (t : TimeOfDay) (offset : Option Int) : Held (.moment d t offset)
  | list {xs : List Value} (hxs : ∀ v ∈ xs, Held v) : Held (.list xs)
  | mapping {fields : Fields} (hfields : ∀ entry ∈ fields, Held entry.2) : Held (.mapping fields)

/-- The nodes whose values can stand in a document. -/
inductive Node.Held : Node → Prop where
  | leaf {v : Value} (hv : Toml.Held v) : Node.Held (.leaf v)
  | table {origin : Origin} {entries : Entries Node} (hentries : ∀ entry ∈ entries, Node.Held entry.2) :
      Node.Held (.table origin entries)
  | tables {earlier : List (Entries Node)} {last : Entries Node}
      (hearlier : ∀ entries ∈ earlier, ∀ entry ∈ entries, Node.Held entry.2)
      (hlast : ∀ entry ∈ last, Node.Held entry.2) : Node.Held (.tables earlier last)

def AllHeld (entries : Entries Node) : Prop :=
  ∀ entry ∈ entries, entry.2.Held

/-! ### Changes of tables -/

theorem AllHeld.nil : AllHeld [] :=
  fun _ hentry => absurd hentry List.not_mem_nil

theorem AllHeld.insert {entries : Entries Node} (hentries : AllHeld entries) {node : Node}
    (hnode : node.Held) (name : String) : AllHeld (Entries.insert entries name node) := by
  intro entry hentry
  obtain hentry | rfl := Entries.mem_of_mem_insert hentry
  · exact hentries entry hentry
  · exact hnode

theorem AllHeld.get? {entries : Entries Node} (hentries : AllHeld entries) {name : String}
    {node : Node} (hget : Entries.get? entries name = some node) : node.Held :=
  hentries _ (Entries.mem_of_get? hget)

/-- A change of a table that makes nothing else of it than a document can hold. -/
def Keeps (change : Entries Node → Option (Entries Node)) : Prop :=
  ∀ ⦃entries changed⦄, AllHeld entries → change entries = some changed → AllHeld changed

theorem keeps_through {change : Entries Node → Option (Entries Node)} (hchange : Keeps change)
    (name : String) : Keeps (through name change) := by
  intro entries changed hentries hthrough
  unfold through at hthrough
  split at hthrough
  · obtain ⟨sub, hsub, rfl⟩ := Option.map_eq_some_iff.1 hthrough
    exact hentries.insert (.table (hchange .nil hsub)) name
  next hget =>
    obtain ⟨sub, hsub, rfl⟩ := Option.map_eq_some_iff.1 hthrough
    cases hentries.get? hget with
    | table hold => exact hentries.insert (.table (hchange hold hsub)) name
  next hget =>
    obtain ⟨last, hlast, rfl⟩ := Option.map_eq_some_iff.1 hthrough
    cases hentries.get? hget with
    | tables hearlier hold => exact hentries.insert (.tables hearlier (hchange hold hlast)) name
  · cases hthrough

theorem keeps_along {change : Entries Node → Option (Entries Node)} (hchange : Keeps change)
    (path : List String) : Keeps (along change path) := by
  induction path with
  | nil => exact hchange
  | cons name rest ih => exact keeps_through ih name

theorem keeps_declare (name : String) : Keeps (declare name) := by
  intro entries changed hentries hdeclare
  unfold declare at hdeclare
  split at hdeclare
  · cases hdeclare
    exact hentries.insert (.table AllHeld.nil) name
  next hget =>
    cases hdeclare
    cases hentries.get? hget with
    | table hold => exact hentries.insert (.table hold) name
  · cases hdeclare

theorem keeps_extend (name : String) : Keeps (extend name) := by
  intro entries changed hentries hextend
  unfold extend at hextend
  split at hextend
  · cases hextend
    exact hentries.insert (.tables (fun _ h => absurd h List.not_mem_nil) AllHeld.nil) name
  next earlier last hget =>
    cases hextend
    cases hentries.get? hget with
    | tables hearlier hlast =>
        refine hentries.insert (.tables ?_ AllHeld.nil) name
        intro table htable
        obtain htable | htable := List.mem_append.1 htable
        · exact hearlier table htable
        · rw [List.mem_singleton.1 htable]
          exact hlast
  · cases hextend

theorem keeps_assign {v : Value} (hv : Held v) (part : Nat) (path : List String) :
    Keeps (assign part v path) := by
  induction path with
  | nil =>
      intro entries changed _ hassign
      cases hassign
  | cons name rest ih =>
      intro entries changed hentries hassign
      cases rest with
      | nil =>
          rw [assign] at hassign
          split at hassign
          · cases hassign
          · cases hassign
            exact hentries.insert (.leaf hv) name
      | cons next rest =>
          have hadd {sub : Entries Node} (hsub : AllHeld sub)
              (hassigned : (assign part v (next :: rest) sub).map
                (fun sub => Entries.insert entries name (.table (.dotted part) sub)) = some changed) :
              AllHeld changed := by
            obtain ⟨sub, hmade, rfl⟩ := Option.map_eq_some_iff.1 hassigned
            exact hentries.insert (.table (ih hsub hmade)) name
          have hold {origin : Origin} {sub : Entries Node}
              (hget : Entries.get? entries name = some (.table origin sub)) : AllHeld sub := by
            cases hentries.get? hget with
            | table hsub => exact hsub
          simp only [assign] at hassign
          split at hassign
          · exact hadd .nil hassign
          next hget => exact hadd (hold hget) hassign
          next hget =>
            split at hassign
            · exact hadd (hold hget) hassign
            · cases hassign
          · cases hassign

mutual

theorem Node.Held.toValue {node : Node} (hnode : node.Held) : Toml.Held node.toValue :=
  match node, hnode with
  | .leaf _, .leaf hv => hv
  | .table _ _, .table hentries => .mapping (held_entriesToFields hentries)
  | .tables _ _, .tables hearlier hlast => by
      refine .list fun v hv => ?_
      obtain hv | hv := List.mem_append.1 hv
      · exact held_tablesToValues hearlier v hv
      · rw [List.mem_singleton.1 hv]
        exact .mapping (held_entriesToFields hlast)
termination_by structural node

theorem held_entriesToFields {entries : Entries Node} (hentries : AllHeld entries) :
    ∀ entry ∈ entriesToFields entries, Held entry.2 :=
  match entries with
  | [] => fun _ hentry => absurd hentry List.not_mem_nil
  | (name, node) :: rest => by
      intro entry hentry
      obtain rfl | hentry := List.mem_cons.1 hentry
      · exact Node.Held.toValue (hentries _ List.mem_cons_self)
      · exact held_entriesToFields (fun e he => hentries e (List.mem_cons_of_mem _ he)) entry hentry
termination_by structural entries

theorem held_tablesToValues {tables : List (Entries Node)}
    (htables : ∀ entries ∈ tables, AllHeld entries) : ∀ v ∈ tablesToValues tables, Held v :=
  match tables with
  | [] => fun _ hv => absurd hv List.not_mem_nil
  | entries :: rest => by
      intro v hv
      obtain rfl | hv := List.mem_cons.1 hv
      · exact .mapping (held_entriesToFields (htables entries List.mem_cons_self))
      · exact held_tablesToValues (fun e he => htables e (List.mem_cons_of_mem _ he)) v hv
termination_by structural tables

end

/-! ### Scalars -/

theorem of_orMalformed {α : Type} {o : Option α} {a : α} (ho : orMalformed o = .ok a) :
    o = some a := by
  cases o with
  | none => cases ho
  | some b =>
      cases ho
      rfl

theorem held_dated {d : Date} {cs : List Char} {r : Value × List Char} (hread : dated d cs = some r) :
    Held r.1 := by
  unfold dated at hread
  split at hread
  · cases hread
  · split at hread
    · cases hread
      exact .date d
    · cases hread
      exact .moment d _ _

theorem held_based {base : Nat} {cs : List Char} {r : Value × List Char}
    (hread : based base cs = some r) : Held r.1 := by
  cases cs with
  | nil => cases hread
  | cons c rest =>
      obtain ⟨-, hread⟩ := Option.ite_none_right_eq_some.1 hread
      cases hread
      exact .int _

theorem held_decimal {cs : List Char} {r : Value × List Char} (hread : decimal cs = .ok r) :
    Held r.1 := by
  obtain ⟨⟨whole, rest⟩, -, hread⟩ := Json.exists_of_bind_eq_ok hread
  simp only at hread
  split at hread
  · obtain ⟨v, hv, hread⟩ := Json.exists_of_bind_eq_ok hread
    cases hread
    unfold decimalInt at hv
    split at hv
    · cases hv
    · cases hv
      exact .int _
  · cases hread
    exact .float _

theorem held_wordNumber {cs : List Char} {r : Value × List Char} (hread : wordNumber cs = some r) :
    Held r.1 := by
  unfold wordNumber at hread
  simp only at hread
  split at hread
  · cases hread
    exact .float _
  · cases hread
    exact .float _
  · cases hread

theorem held_number {cs : List Char} {r : Value × List Char} (hread : number cs = .ok r) :
    Held r.1 := by
  unfold number at hread
  simp only at hread
  split at hread
  next found hmarked =>
    cases hread
    split at hmarked
    · exact held_based hmarked
    · exact held_based hmarked
    · exact held_based hmarked
    · cases hmarked
  · unfold plainNumber at hread
    split at hread
    · exact held_wordNumber (of_orMalformed hread)
    · exact held_decimal hread

theorem held_quantity {cs : List Char} {r : Value × List Char} (hread : quantity cs = .ok r) :
    Held r.1 := by
  unfold quantity at hread
  split at hread
  · exact held_dated (of_orMalformed hread)
  · split at hread
    · cases hread
      exact .time _
    · exact held_number hread

/-! ### Values -/

theorem held_read (fuel : Nat) :
    (∀ room cs r, value fuel room cs = .ok r → Held r.1) ∧
    (∀ room acc cs r, (∀ v ∈ acc, Held v) → items fuel room acc cs = .ok r → Held r.1) ∧
    (∀ room cs r, binding fuel room cs = .ok r → Held r.1.2) ∧
    ∀ room acc cs r, AllHeld acc → inlineTable fuel room acc cs = .ok r → Held r.1 := by
  induction fuel with
  | zero =>
      refine ⟨?_, ?_, ?_, ?_⟩
      · intro room cs r hread
        rw [value] at hread
        cases hread
      · intro room acc cs r _ hread
        rw [items] at hread
        cases hread
      · intro room cs r hread
        rw [binding] at hread
        cases hread
      · intro room acc cs r _ hread
        rw [inlineTable] at hread
        cases hread
  | succ fuel ih =>
      obtain ⟨hvalue, hitems, hbinding, htable⟩ := ih
      refine ⟨?_, ?_, ?_, ?_⟩
      · intro room cs r hread
        rw [value.eq_def] at hread
        simp only at hread
        split at hread
        · cases hread
        · obtain ⟨left, -, hread⟩ := Json.exists_of_bind_eq_ok hread
          obtain ⟨rest, -, hread⟩ := Json.exists_of_bind_eq_ok hread
          split at hread
          · cases hread
            exact .list fun _ hv => absurd hv List.not_mem_nil
          · exact hitems _ _ _ _ (fun _ hv => absurd hv List.not_mem_nil) hread
        · obtain ⟨left, -, hread⟩ := Json.exists_of_bind_eq_ok hread
          split at hread
          · cases hread
            exact .mapping fun _ hentry => absurd hentry List.not_mem_nil
          · exact htable _ _ _ _ .nil hread
        · cases hread
          exact .bool true
        · cases hread
          exact .bool false
        · split at hread
          · obtain ⟨⟨s, rest⟩, -, hread⟩ := Json.exists_of_bind_eq_ok hread
            cases hread
            exact .text s
          · exact held_quantity hread
      · intro room acc cs r hacc hread
        rw [items] at hread
        obtain ⟨⟨v, rest⟩, hv, hread⟩ := Json.exists_of_bind_eq_ok hread
        have hmore : ∀ w ∈ v :: acc, Held w := by
          intro w hw
          obtain rfl | hw := List.mem_cons.1 hw
          · exact hvalue _ _ _ hv
          · exact hacc w hw
        have hall : Held (.list (v :: acc).reverse) :=
          .list fun w hw => hmore w (List.mem_reverse.1 hw)
        obtain ⟨rest, -, hread⟩ := Json.exists_of_bind_eq_ok hread
        split at hread
        · cases hread
          exact hall
        · obtain ⟨rest, -, hread⟩ := Json.exists_of_bind_eq_ok hread
          split at hread
          · cases hread
            exact hall
          · exact hitems _ _ _ _ hmore hread
        · cases hread
      · intro room cs r hread
        rw [binding] at hread
        obtain ⟨⟨path, rest⟩, -, hread⟩ := Json.exists_of_bind_eq_ok hread
        obtain ⟨rest, -, hread⟩ := Json.exists_of_bind_eq_ok hread
        obtain ⟨⟨v, rest⟩, hv, hread⟩ := Json.exists_of_bind_eq_ok hread
        cases hread
        exact hvalue _ _ _ hv
      · intro room acc cs r hacc hread
        rw [inlineTable] at hread
        obtain ⟨⟨⟨path, v⟩, rest⟩, hv, hread⟩ := Json.exists_of_bind_eq_ok hread
        obtain ⟨made, hmade, hread⟩ := Json.exists_of_bind_eq_ok hread
        have hkept : AllHeld made :=
          keeps_assign (hbinding _ _ _ hv) 0 path hacc (of_orMalformed hmade)
        split at hread
        · cases hread
          exact .mapping (held_entriesToFields hkept)
        · exact htable _ _ _ _ hkept hread
        · cases hread

/-! ### Documents -/

theorem allHeld_heading {change : String → Entries Node → Option (Entries Node)}
    (hchange : ∀ name, Keeps (change name)) {close cs : List Char} {state : State}
    (hstate : AllHeld state.tables) {r : State × List Char}
    (hread : heading change close state cs = some r) : AllHeld r.1.tables := by
  obtain ⟨⟨path, rest⟩, -, hread⟩ := Option.bind_eq_some_iff.1 hread
  obtain ⟨last, -, hread⟩ := Option.bind_eq_some_iff.1 hread
  obtain ⟨tables, htables, hread⟩ := Option.bind_eq_some_iff.1 hread
  obtain ⟨rest, -, hread⟩ := Option.bind_eq_some_iff.1 hread
  cases hread
  exact keeps_along (hchange last) _ hstate htables

theorem allHeld_statement {state : State} (hstate : AllHeld state.tables) {cs : List Char}
    {r : State × List Char} (hread : statement state cs = .ok r) : AllHeld r.1.tables := by
  obtain ⟨⟨⟨path, v⟩, rest⟩, hv, hread⟩ := Json.exists_of_bind_eq_ok hread
  obtain ⟨tables, htables, hread⟩ := Json.exists_of_bind_eq_ok hread
  cases hread
  have hheld : Held v := (held_read _).2.2.1 _ _ _ hv
  exact keeps_along (keeps_assign hheld _ path) _ hstate (of_orMalformed htables)

theorem allHeld_run {fuel : Nat} {state state' : State} {cs : List Char}
    (hstate : AllHeld state.tables) (hrun : run fuel state cs = .ok state') :
    AllHeld state'.tables := by
  induction fuel generalizing state cs with
  | zero => cases hrun
  | succ fuel ih =>
      rw [run] at hrun
      split at hrun
      · cases hrun
        exact hstate
      · exact ih hstate hrun
      · obtain ⟨rest, -, hrun⟩ := Json.exists_of_bind_eq_ok hrun
        exact ih hstate hrun
      · obtain ⟨⟨next, rest⟩, hnext, hrun⟩ := Json.exists_of_bind_eq_ok hrun
        obtain ⟨rest, -, hrun⟩ := Json.exists_of_bind_eq_ok hrun
        exact ih (allHeld_heading keeps_extend hstate (of_orMalformed hnext)) hrun
      · obtain ⟨⟨next, rest⟩, hnext, hrun⟩ := Json.exists_of_bind_eq_ok hrun
        obtain ⟨rest, -, hrun⟩ := Json.exists_of_bind_eq_ok hrun
        exact ih (allHeld_heading keeps_declare hstate (of_orMalformed hnext)) hrun
      · obtain ⟨⟨next, rest⟩, hnext, hrun⟩ := Json.exists_of_bind_eq_ok hrun
        obtain ⟨rest, -, hrun⟩ := Json.exists_of_bind_eq_ok hrun
        exact ih (allHeld_statement hstate hnext) hrun

/-- All that is read of a document can stand in one. -/
theorem held_of_read {s : String} {fields : Fields} (hread : read s = .ok fields) :
    Held (.mapping fields) := by
  obtain ⟨state, hrun, hread⟩ := Json.exists_of_bind_eq_ok hread
  cases hread
  exact .mapping (held_entriesToFields (allHeld_run .nil hrun))

end Pagescript.Toml

namespace Pagescript.Config

/-- What the table of settings in a document binds can stand in a document. -/
theorem held_of_ofDocument {document : Option String} {table : Fields}
    (htable : ofDocument document = .ok table) : Toml.Held (.mapping table) := by
  unfold ofDocument at htable
  split at htable
  · cases htable
    exact .mapping fun _ hentry => absurd hentry List.not_mem_nil
  · split at htable
    · cases htable
    · cases htable
    · cases htable
    next fields hread =>
      split at htable
      next found hfound =>
        cases htable
        cases hget : Entries.get? fields "wayang" with
        | none =>
            rw [hget] at hfound
            cases hfound
            exact .mapping fun _ hentry => absurd hentry List.not_mem_nil
        | some v =>
            rw [hget] at hfound
            cases Toml.held_of_read hread with
            | mapping hfields => exact hfound ▸ hfields _ (Entries.mem_of_get? hget)
      · cases htable

end Pagescript.Config
