import XoChip.Proofs.HostMoves
import XoChip.Proofs.WellFormed

/-!
The two orders of the listing: lines lie in order of address and are numbered in order of first
visit. The reference is a list of first visits, `firstVisits`, that knows nothing of lines. Main
statement: `visit_order`.
-/

namespace XoChip

theorem split_concat {α : Type} {xs past later : List α} {x y : α} :
    xs ++ [x] = past ++ y :: later ↔
      later = [] ∧ xs = past ∧ x = y ∨ ∃ rest, later = rest ++ [x] ∧ xs = past ++ y :: rest := by
  rcases later.eq_nil_or_concat with rfl | ⟨rest, z, rfl⟩
  · simp
  · have whole : past ++ y :: rest.concat z = (past ++ y :: rest).concat z := by simp
    rw [whole, ← List.concat_eq_append, List.concat_inj]
    simp only [List.concat_eq_append, List.append_eq_nil_iff]
    constructor
    · rintro ⟨same, rfl⟩
      exact .inr ⟨rest, rfl, same⟩
    · rintro (⟨⟨-, ⟨⟩⟩, -⟩ | ⟨rest', same, whole⟩)
      obtain ⟨rfl, last⟩ := List.append_inj' same rfl
      exact ⟨whole, (List.cons.inj last).1.symm⟩

/-! ## The last visit -/

namespace Line

theorem latest?_concat (ls : List Line) (l : Line) :
    latest? (ls ++ [l]) = if (latest? ls).any (l.visit < ·.visit) then latest? ls else some l :=
  List.foldl_concat ..

theorem latest?_eq_none_iff {ls : List Line} : latest? ls = none ↔ ls = [] := by
  rcases ls.eq_nil_or_concat' with rfl | ⟨ls, l, rfl⟩
  · exact iff_of_true rfl rfl
  · refine iff_of_false ?_ (List.concat_ne_nil l ls)
    rw [latest?_concat]
    split
    · next surpassed =>
      intro nothing
      rw [nothing] at surpassed
      cases surpassed
    · nofun

theorem latest?_eq_some {ls : List Line} {l : Line} (found : latest? ls = some l) :
    l ∈ ls ∧ ∀ l' ∈ ls, l'.visit ≤ l.visit := by
  induction ls using List.reverseRecOn generalizing l with
  | nil => cases found
  | append_singleton ls x ih =>
    rw [latest?_concat] at found
    split at found
    · next surpassed =>
      obtain ⟨mem, latest⟩ := ih found
      rw [found, Option.any_some, decide_eq_true_eq] at surpassed
      refine ⟨List.mem_append_left _ mem, fun l' mem' => ?_⟩
      rcases List.mem_append.mp mem' with before | last
      · exact latest l' before
      · rw [List.mem_singleton.mp last]
        exact Nat.le_of_lt surpassed
    · next unsurpassed =>
      obtain rfl : x = l := Option.some.inj found
      refine ⟨List.mem_append_right _ List.mem_cons_self, fun l' mem' => ?_⟩
      rcases List.mem_append.mp mem' with before | last
      · cases earlier : latest? ls with
        | none =>
          rw [latest?_eq_none_iff.mp earlier] at before
          cases before
        | some y =>
          rw [earlier, Option.any_some, decide_eq_true_eq] at unsurpassed
          exact Nat.le_trans ((ih earlier).2 l' before) (Nat.le_of_not_lt unsurpassed)
      · rw [List.mem_singleton.mp last]

end Line

namespace Disassembly

section
variable {d : Disassembly} {a : Word} {l : Line}

/-! ## Lines in order of address -/

/-- The lines with their addresses, in order of address. -/
def entries (d : Disassembly) : List (Word × Line) :=
  d.listing.toList

theorem lines_eq (d : Disassembly) : d.lines = d.entries.map Prod.snd := by
  change d.listing.foldr (fun _ l ls => l :: ls) [] = _
  rw [Std.TreeMap.foldr_eq_foldr_toList, List.map_eq_foldr]
  rfl

theorem mem_entries : (a, l) ∈ d.entries ↔ d.get? a = some l :=
  Std.TreeMap.mem_toList_iff_getElem?_eq_some

theorem pairwise_entries (d : Disassembly) : d.entries.Pairwise fun e e' => e.1 < e'.1 :=
  d.listing.ordered_keys_toList.imp fun before => Std.compare_eq_lt.mp before

theorem nodup_of_pairwise {es : List (Word × Line)} (ordered : es.Pairwise fun e e' => e.1 < e'.1) :
    es.Nodup := by
  refine List.nodup_iff_pairwise_ne.mpr (ordered.imp fun before same => ?_)
  rw [same] at before
  exact UInt16.lt_irrefl _ before

theorem size_eq (d : Disassembly) : d.size = d.entries.length :=
  Std.TreeMap.length_toList.symm

/-! ## Numbering -/

/-- The entries with the positions they have. -/
def numbered (d : Disassembly) : List (Word × Line) :=
  d.entries.zipIdx.map fun ((a, l), index) => (a, { l with index := index })

theorem pairwise_numbered (d : Disassembly) : d.numbered.Pairwise fun e e' => e.1 < e'.1 := by
  have ordered := d.pairwise_entries
  rw [← List.zipIdx_map_fst 0 d.entries, List.pairwise_map] at ordered
  exact List.pairwise_map.mpr ordered

theorem getElem?_numbered (d : Disassembly) (k : Nat) :
    d.numbered[k]? = d.entries[k]?.map fun (a, l) => (a, { l with index := k }) := by
  simp only [numbered, List.getElem?_map, List.getElem?_zipIdx, Option.map_map, Nat.zero_add]
  rfl

/-- A map made of entries with distinct addresses holds these entries. -/
theorem getElem?_ofList {es : List (Word × Line)} (ordered : es.Pairwise fun e e' => e.1 < e'.1) :
    (Std.TreeMap.ofList es)[a]? = some l ↔ (a, l) ∈ es := by
  have distinct : es.Pairwise fun e e' => ¬compare e.1 e'.1 = .eq :=
    ordered.imp fun before same => by
      rw [Std.compare_eq_lt.mpr before] at same
      cases same
  have found {l' : Line} (mem : (a, l') ∈ es) : (Std.TreeMap.ofList es)[a]? = some l' :=
    Std.TreeMap.getElem?_ofList_of_mem Std.compare_self distinct mem
  refine ⟨fun holds => ?_, found⟩
  by_cases mem : a ∈ es.map Prod.fst
  · obtain ⟨⟨b, l'⟩, there, rfl⟩ := List.mem_map.mp mem
    have same := (found there).symm.trans holds
    cases same
    exact there
  · rw [Std.TreeMap.getElem?_ofList_of_contains_eq_false (by simpa using mem)] at holds
    cases holds

theorem entries_renumber (stale : d.stale = true) : d.renumber.entries = d.numbered := by
  have renumbered : d.renumber.listing = .ofList d.numbered := by
    rw [renumber, if_pos stale]
    rfl
  -- Two lists in order of address with the same entries are one list.
  have same : d.renumber.entries.Perm d.numbered := by
    refine (List.perm_ext_iff_of_nodup (nodup_of_pairwise (pairwise_entries _))
      (nodup_of_pairwise d.pairwise_numbered)).mpr fun (a, l) => ?_
    rw [mem_entries, get?, renumbered, getElem?_ofList d.pairwise_numbered]
  refine same.eq_of_pairwise (fun e e' _ _ before behind => ?_) (pairwise_entries _)
    d.pairwise_numbered
  exact absurd before (UInt16.lt_asymm behind)

/-- Renumbering changes no line but for its index. -/
theorem get?_renumber (d : Disassembly) (a : Word) :
    ∃ index, d.renumber.get? a = (d.get? a).map fun l => { l with index := index } := by
  cases stale : d.stale with
  | false =>
    have same : d.renumber = d := by rw [renumber, stale]; rfl
    rw [same]
    cases d.get? a with
    | none => exact ⟨0, rfl⟩
    | some l => exact ⟨l.index, rfl⟩
  | true =>
    cases listed : d.get? a with
    | none =>
      refine ⟨0, Option.eq_none_iff_forall_ne_some.mpr fun l' renumbered => ?_⟩
      rw [← mem_entries, entries_renumber stale] at renumbered
      obtain ⟨k, here⟩ := List.mem_iff_getElem?.mp renumbered
      rw [getElem?_numbered] at here
      obtain ⟨⟨b, l⟩, there, same⟩ := Option.map_eq_some_iff.mp here
      cases same
      have known := mem_entries.mp (List.mem_of_getElem? there)
      cases listed.symm.trans known
    | some l =>
      obtain ⟨k, here⟩ := List.mem_iff_getElem?.mp (mem_entries.mpr listed)
      refine ⟨k, mem_entries.mp ?_⟩
      rw [entries_renumber stale]
      exact List.mem_of_getElem? (by rw [getElem?_numbered, here]; rfl)

/-- Every line has its position in order of address for an index. -/
def Ranked (d : Disassembly) : Prop :=
  ∀ (k : Nat) (l : Line), d.lines[k]? = some l → l.index = k

theorem ranked_renumber (stale : d.stale = true) : d.renumber.Ranked := by
  intro k l here
  rw [lines_eq, List.getElem?_map, entries_renumber stale, getElem?_numbered,
    Option.map_map] at here
  obtain ⟨e, -, rfl⟩ := Option.map_eq_some_iff.mp here
  rfl

theorem isSome_get?_visit (m : Memory) (b : Word) :
    ((d.visit m b).get? a).isSome ↔ (d.get? a).isSome ∨ b = a := by
  rw [get?_visit]
  cases d.get? a with
  | none => by_cases same : b = a <;> simp [same]
  | some l => simp

theorem isSome_get?_renumber : (d.renumber.get? a).isSome ↔ (d.get? a).isSome := by
  obtain ⟨index, renumbered⟩ := d.get?_renumber a
  rw [renumbered, Option.isSome_map]

theorem get?_empty (a : Word) : empty.get? a = none :=
  Std.TreeMap.getElem?_emptyc

/-- A known address is not listed again. -/
theorem visit_of_known {m : Memory} (known : (d.get? a).isSome) : d.visit m a = d := by
  rw [get?, Std.TreeMap.isSome_getElem?_eq_contains] at known
  rw [visit, if_pos known]

theorem visit_of_new {m : Memory} (new : d.get? a = none) :
    (d.visit m a).visits = d.visits + 1 ∧ (d.visit m a).stale = true := by
  have unlisted : ¬d.listing.contains a := by
    rw [← Std.TreeMap.isSome_getElem?_eq_contains]
    exact Option.not_isSome_iff_eq_none.mpr new
  rw [visit, if_neg unlisted]
  exact ⟨rfl, rfl⟩

end

/-! ## First visits -/

/-- One thing that is done with a listing. -/
inductive Change
  | visit (m : Memory) (a : Word)
  | renumber
  | clear

def change (d : Disassembly) : Change → Disassembly
  | .visit m a => d.visit m a
  | .renumber => d.renumber
  | .clear => .empty

def changed (d : Disassembly) (cs : List Change) : Disassembly :=
  cs.foldl change d

/-- Notes a visit unless its address is noted. -/
def note (vs : List (Word × Memory)) : Change → List (Word × Memory)
  | .visit m a => if a ∈ vs.map Prod.fst then vs else vs ++ [(a, m)]
  | .renumber => vs
  | .clear => []

/-- The addresses visited since the last time everything was cleared, in order of first visit, each
with what memory held then. -/
def firstVisits (cs : List Change) : List (Word × Memory) :=
  cs.foldl note []

theorem firstVisits_concat (cs : List Change) (c : Change) :
    firstVisits (cs ++ [c]) = note (firstVisits cs) c :=
  List.foldl_concat ..

/-- Something was done after the last time everything was cleared, if that ever happened. It may
refer to what was done before it. -/
def Since (P : List Change → Change → Prop) (cs : List Change) : Prop :=
  ∃ past c later, cs = past ++ c :: later ∧ P past c ∧ .clear ∉ later

theorem since_concat {P : List Change → Change → Prop} {cs : List Change} {c : Change} :
    Since P (cs ++ [c]) ↔ P cs c ∨ c ≠ .clear ∧ Since P cs := by
  constructor
  · rintro ⟨past, c', later, whole, holds, kept⟩
    rcases split_concat.mp whole with ⟨rfl, rfl, rfl⟩ | ⟨rest, rfl, rfl⟩
    · exact .inl holds
    · rw [List.mem_append, List.mem_singleton, not_or] at kept
      exact .inr ⟨Ne.symm kept.2, past, c', rest, rfl, holds, kept.1⟩
  · rintro (holds | ⟨other, past, c', later, rfl, holds, kept⟩)
    · exact ⟨cs, c, [], rfl, holds, List.not_mem_nil⟩
    · refine ⟨past, c', later ++ [c], (List.append_assoc ..), holds, ?_⟩
      rw [List.mem_append, List.mem_singleton, not_or]
      exact ⟨kept, Ne.symm other⟩

theorem not_since_nil {P : List Change → Change → Prop} : ¬Since P [] := by
  rintro ⟨past, c, later, whole, -⟩
  cases past <;> cases whole

/-- An address counts as visited since everything was last cleared. -/
theorem mem_firstVisits {cs : List Change} {a : Word} :
    a ∈ (firstVisits cs).map Prod.fst ↔ Since (fun _ c => ∃ m, c = .visit m a) cs := by
  induction cs using List.reverseRecOn with
  | nil => exact iff_of_false List.not_mem_nil not_since_nil
  | append_singleton cs c ih =>
    rw [firstVisits_concat, since_concat, ← ih]
    cases c with
    | visit m b =>
      by_cases known : b ∈ (firstVisits cs).map Prod.fst
      · rw [note, if_pos known]
        constructor
        · exact fun before => .inr ⟨nofun, before⟩
        · rintro (⟨m', same⟩ | ⟨-, before⟩)
          · cases same
            exact known
          · exact before
      · rw [note, if_neg known, List.map_append, List.mem_append, List.map_singleton,
          List.mem_singleton]
        constructor
        · rintro (before | rfl)
          · exact .inr ⟨nofun, before⟩
          · exact .inl ⟨m, rfl⟩
        · rintro (⟨m', same⟩ | ⟨-, before⟩)
          · cases same
            exact .inr rfl
          · exact .inl before
    | renumber => simp [note]
    | clear => simp [note]

/-- A first visit has the number of the addresses that were visited before it. -/
theorem getElem?_firstVisits {cs : List Change} {k : Nat} {a : Word} {m : Memory} :
    (firstVisits cs)[k]? = some (a, m) ↔
      Since (fun past c => c = .visit m a ∧ a ∉ (firstVisits past).map Prod.fst ∧
        (firstVisits past).length = k) cs := by
  induction cs using List.reverseRecOn with
  | nil => exact iff_of_false nofun not_since_nil
  | append_singleton cs c ih =>
    rw [firstVisits_concat, since_concat, ← ih]
    cases c with
    | visit m' b =>
      by_cases known : b ∈ (firstVisits cs).map Prod.fst
      · rw [note, if_pos known]
        constructor
        · exact fun before => .inr ⟨nofun, before⟩
        · rintro (⟨same, new, -⟩ | ⟨-, before⟩)
          · cases same
            exact absurd known new
          · exact before
      · rw [note, if_neg known, List.getElem?_append]
        constructor
        · intro here
          split at here
          · exact .inr ⟨nofun, here⟩
          · rw [List.getElem?_singleton] at here
            split at here
            · cases here
              exact .inl ⟨rfl, known, by omega⟩
            · cases here
        · rintro (⟨same, -, rfl⟩ | ⟨-, before⟩)
          · cases same
            simp
          · rw [if_pos (List.getElem?_eq_some_iff.mp before).1]
            exact before
    | renumber => simp [note]
    | clear => simp [note]

/-- The listing is what it ought to be after some first visits. -/
structure Lists (d : Disassembly) (vs : List (Word × Memory)) : Prop where
  listed : ∀ (k : Nat) (a : Word) (m : Memory), vs[k]? = some (a, m) →
    ∃ index, d.get? a = some (.ofMemory m a index k)
  known : ∀ a, (d.get? a).isSome → a ∈ vs.map Prod.fst
  visits : d.visits = vs.length
  counted : d.Counted
  ranked : d.stale = false → d.Ranked

theorem lists_empty : empty.Lists [] where
  listed _ _ _ h := nomatch h
  known a h := by
    rw [get?_empty] at h
    cases h
  visits := rfl
  counted := rfl
  ranked _ _ _ h := nomatch h

section
variable {d : Disassembly} {vs : List (Word × Memory)}

theorem Lists.isSome_get?_iff (h : d.Lists vs) (a : Word) :
    (d.get? a).isSome ↔ a ∈ vs.map Prod.fst := by
  refine ⟨h.known a, fun mem => ?_⟩
  obtain ⟨⟨b, m⟩, there, rfl⟩ := List.mem_map.mp mem
  obtain ⟨k, here⟩ := List.mem_iff_getElem?.mp there
  obtain ⟨index, listed⟩ := h.listed k b m here
  rw [listed]
  rfl

theorem Lists.visit (h : d.Lists vs) (m : Memory) (a : Word) :
    (d.visit m a).Lists (note vs (.visit m a)) := by
  by_cases old : a ∈ vs.map Prod.fst
  · rw [visit_of_known ((h.isSome_get?_iff a).mpr old), note, if_pos old]
    exact h
  · have new : d.get? a = none := by
      rw [← Option.not_isSome_iff_eq_none, h.isSome_get?_iff]
      exact old
    obtain ⟨visits, stale⟩ := visit_of_new (m := m) new
    rw [note, if_neg old]
    refine ⟨fun k b m' here => ?_, fun b listed => ?_, ?_, h.counted.visit m a, ?_⟩
    · rw [get?_visit]
      rcases Nat.lt_or_ge k vs.length with before | last
      · rw [List.getElem?_append_left before] at here
        obtain ⟨index, listed⟩ := h.listed k b m' here
        exact ⟨index, by rw [listed, if_neg (by simp)]⟩
      · rw [List.getElem?_append_right last, List.getElem?_singleton] at here
        split at here
        · cases here
          refine ⟨d.size, ?_⟩
          rw [if_pos ⟨rfl, Option.isNone_iff_eq_none.mpr new⟩, h.visits]
          congr
          omega
        · cases here
    · rw [List.map_append, List.mem_append]
      rcases (isSome_get?_visit m a).mp listed with known | rfl
      · exact .inl (h.known b known)
      · exact .inr (List.mem_singleton.mpr rfl)
    · rw [visits, h.visits, List.length_append, List.length_singleton]
    · rw [stale]
      nofun

theorem Lists.renumber (h : d.Lists vs) : d.renumber.Lists vs where
  listed k a m here := by
    obtain ⟨index, listed⟩ := h.listed k a m here
    obtain ⟨index', renumbered⟩ := d.get?_renumber a
    exact ⟨index', by rw [renumbered, listed]; rfl⟩
  known a listed := h.known a (isSome_get?_renumber.mp listed)
  visits := by
    rw [← h.visits, Disassembly.renumber]
    split <;> rfl
  counted := h.counted.renumber
  ranked _ := by
    cases stale : d.stale with
    | true => exact ranked_renumber stale
    | false =>
      rw [Disassembly.renumber, stale]
      exact h.ranked stale

theorem Lists.change (h : d.Lists vs) (c : Change) : (d.change c).Lists (note vs c) := by
  cases c with
  | visit m a => exact h.visit m a
  | renumber => exact h.renumber
  | clear => exact lists_empty

theorem lists_firstVisits (cs : List Change) : (empty.changed cs).Lists (firstVisits cs) := by
  induction cs using List.reverseRecOn with
  | nil => exact lists_empty
  | append_singleton cs c ih =>
    rw [firstVisits_concat, changed, List.foldl_concat]
    exact ih.change c

/-! ## What is listed -/

theorem Lists.line (h : d.Lists vs) {a : Word} {l : Line} (listed : d.get? a = some l) :
    ∃ m, vs[l.visit]? = some (a, m) ∧ l = .ofMemory m a l.index l.visit := by
  have known := h.known a (Option.isSome_of_eq_some listed)
  obtain ⟨⟨b, m⟩, there, rfl⟩ := List.mem_map.mp known
  obtain ⟨k, here⟩ := List.mem_iff_getElem?.mp there
  obtain ⟨index, line⟩ := h.listed k b m here
  cases line.symm.trans listed
  exact ⟨m, here, rfl⟩

theorem Lists.address (h : d.Lists vs) {a : Word} {l : Line} (listed : d.get? a = some l) :
    l.address = a := by
  obtain ⟨m, -, line⟩ := h.line listed
  exact congrArg Line.address line

theorem Lists.get?_iff (h : d.Lists vs) {a : Word} {l : Line} :
    d.get? a = some l ↔ l ∈ d.lines ∧ l.address = a := by
  rw [lines_eq, List.mem_map]
  constructor
  · intro listed
    exact ⟨⟨(a, l), mem_entries.mpr listed, rfl⟩, h.address listed⟩
  · rintro ⟨⟨⟨b, l⟩, mem, rfl⟩, rfl⟩
    have listed := mem_entries.mp mem
    rw [h.address listed]
    exact listed

theorem Lists.pairwise_lines (h : d.Lists vs) :
    d.lines.Pairwise fun l l' => l.address < l'.address := by
  rw [lines_eq, List.pairwise_map]
  refine d.pairwise_entries.imp_of_mem fun mem mem' before => ?_
  rw [h.address (mem_entries.mp mem), h.address (mem_entries.mp mem')]
  exact before

theorem Lists.length_lines (h : d.Lists vs) : d.lines.length = vs.length := by
  rw [lines_eq, List.length_map, ← size_eq, ← h.visits]
  exact h.counted.symm

/-- The line of an address that was visited. -/
theorem Lists.mem_of_visited (h : d.Lists vs) {k : Nat} {a : Word} {m : Memory}
    (visited : vs[k]? = some (a, m)) : ∃ l ∈ d.lines, l.address = a ∧ l.visit = k := by
  obtain ⟨index, listed⟩ := h.listed k a m visited
  exact ⟨.ofMemory m a index k, (h.get?_iff.mp listed).1, rfl, rfl⟩

/-- A line shows what memory held at the first visit to its address, and has the number of it. -/
theorem Lists.visited (h : d.Lists vs) {l : Line} (mem : l ∈ d.lines) :
    ∃ m, vs[l.visit]? = some (l.address, m) ∧ l = .ofMemory m l.address l.index l.visit :=
  h.line (h.get?_iff.mpr ⟨mem, rfl⟩)

theorem Lists.visit_lt (h : d.Lists vs) {l : Line} (mem : l ∈ d.lines) :
    l.visit < vs.length := by
  obtain ⟨m, here, -⟩ := h.visited mem
  exact (List.getElem?_eq_some_iff.mp here).1

/-- Lines are told apart by their visits. -/
theorem Lists.eq_of_visit (h : d.Lists vs) {l l' : Line} (mem : l ∈ d.lines) (mem' : l' ∈ d.lines)
    (same : l.visit = l'.visit) : l = l' := by
  obtain ⟨m, here, -⟩ := h.visited mem
  obtain ⟨m', here', -⟩ := h.visited mem'
  rw [same, here', Option.some.injEq, Prod.mk.injEq] at here
  have listed := h.get?_iff.mpr ⟨mem, here.1.symm⟩
  exact Option.some.inj (listed.symm.trans (h.get?_iff.mpr ⟨mem', rfl⟩))

/-- The visits are numbered without gaps. -/
theorem Lists.perm_visits (h : d.Lists vs) :
    (d.lines.map Line.visit).Perm (List.range d.lines.length) := by
  refine (List.perm_ext_iff_of_nodup ?_ List.nodup_range).mpr fun k => ?_
  · refine List.pairwise_map.mpr (h.pairwise_lines.imp_of_mem fun mem mem' before same => ?_)
    rw [h.eq_of_visit mem mem' same] at before
    exact UInt16.lt_irrefl _ before
  · rw [List.mem_range, h.length_lines, List.mem_map]
    constructor
    · rintro ⟨l, mem, rfl⟩
      exact h.visit_lt mem
    · intro inside
      obtain ⟨l, mem, -, number⟩ := h.mem_of_visited (List.getElem?_eq_getElem inside)
      exact ⟨l, mem, number⟩

/-- As visits are numbered without gaps, the newest line is told by the count of them. -/
theorem Lists.newest?_eq_find? (h : d.Lists vs) :
    d.newest? = d.lines.find? fun l => l.visit + 1 == d.visits := by
  cases newest : d.newest? with
  | none => rw [Line.latest?_eq_none_iff.mp newest, List.find?_nil]
  | some l =>
    obtain ⟨mem, latest⟩ := Line.latest?_eq_some newest
    have before := h.visit_lt mem
    have inside : vs.length - 1 < vs.length := by omega
    obtain ⟨final, mem', -, visit⟩ := h.mem_of_visited (List.getElem?_eq_getElem inside)
    have last : l.visit + 1 = d.visits := by
      have most := latest final mem'
      rw [h.visits]
      omega
    cases found : d.lines.find? fun l => l.visit + 1 == d.visits with
    | none => exact absurd (beq_iff_eq.mpr last) (List.find?_eq_none.mp found l mem)
    | some l' =>
      have last' := List.find?_some found
      rw [beq_iff_eq] at last'
      rw [h.eq_of_visit mem (List.mem_of_find?_eq_some found) (by omega)]

theorem Lists.newest? (h : d.Lists vs) :
    d.newest?.map Line.address = vs.getLast?.map Prod.fst := by
  rw [List.getLast?_eq_getElem?, h.newest?_eq_find?]
  cases newest : d.lines.find? fun l => l.visit + 1 == d.visits with
  | none =>
    have unnumbered := List.find?_eq_none.mp newest
    cases last : vs[vs.length - 1]? with
    | none => rfl
    | some e =>
      have inside := (List.getElem?_eq_some_iff.mp last).1
      obtain ⟨l, mem, -, number⟩ := h.mem_of_visited last
      have later := unnumbered l mem
      rw [number, h.visits, beq_iff_eq] at later
      omega
  | some l =>
    have number := List.find?_some newest
    obtain ⟨m, here, -⟩ := h.visited (List.mem_of_find?_eq_some newest)
    rw [h.visits, beq_iff_eq] at number
    rw [← number, Nat.add_sub_cancel, here]
    rfl

end

/-- The lines in both orders, against the first visits. -/
structure InOrder (d : Disassembly) (vs : List (Word × Memory)) : Prop where
  addresses : d.lines.Pairwise fun l l' => l.address < l'.address
  listed : ∀ a, (∃ l ∈ d.lines, l.address = a) ↔ a ∈ vs.map Prod.fst
  found : ∀ a l, d.get? a = some l ↔ l ∈ d.lines ∧ l.address = a
  visits : (d.lines.map Line.visit).Perm (List.range d.lines.length)
  /-- A line shows what memory held at the first visit to its address, and has the number of it. -/
  line : ∀ l ∈ d.lines, ∃ m, vs[l.visit]? = some (l.address, m) ∧
    l = .ofMemory m l.address l.index l.visit
  newest : d.newest?.map Line.address = vs.getLast?.map Prod.fst
  unlisted : d.newest? = none ↔ d.lines = []
  size : d.size = d.lines.length

theorem Lists.inOrder {d : Disassembly} {vs : List (Word × Memory)} (h : d.Lists vs) :
    d.InOrder vs where
  addresses := h.pairwise_lines
  listed a := by
    rw [← h.isSome_get?_iff, Option.isSome_iff_exists]
    exact exists_congr fun l => h.get?_iff.symm
  found a l := h.get?_iff
  visits := h.perm_visits
  line _ := h.visited
  newest := h.newest?
  unlisted := by
    rw [← Option.map_eq_none_iff, h.newest?, Option.map_eq_none_iff, List.getLast?_eq_none_iff,
      ← List.length_eq_zero_iff, ← h.length_lines, List.length_eq_zero_iff]
  size := by rw [size_eq, lines_eq, List.length_map]

/-! ## Indices -/

/-- Only addresses that have a line are visited. -/
def AddsNone (d : Disassembly) : List Change → Prop
  | [] => True
  | c :: cs => (∀ m a, c = .visit m a → (d.get? a).isSome) ∧ (d.change c).AddsNone cs

theorem stale_renumber (d : Disassembly) : d.renumber.stale = false := by
  unfold Disassembly.renumber
  split
  · rfl
  · rename_i fresh
    exact eq_false_of_ne_true fresh

theorem stale_changed {d : Disassembly} {cs : List Change} (numbered : d.stale = false)
    (adds : d.AddsNone cs) : (d.changed cs).stale = false := by
  induction cs generalizing d with
  | nil => exact numbered
  | cons c cs ih =>
    refine ih ?_ adds.2
    cases c with
    | visit m a =>
      rw [change, visit_of_known (adds.1 m a rfl)]
      exact numbered
    | renumber => exact d.stale_renumber
    | clear => rfl

theorem ranked_changed {past later : List Change}
    (adds : (empty.changed past).renumber.AddsNone later) :
    ((empty.changed past).renumber.changed later).Ranked := by
  have whole : (empty.changed past).renumber.changed later =
      empty.changed (past ++ .renumber :: later) := by
    rw [changed, changed, changed, List.foldl_append]
    rfl
  have numbered := stale_changed (stale_renumber _) adds
  rw [whole] at numbered ⊢
  exact (lists_firstVisits _).ranked numbered

end Disassembly

namespace Machine

open Disassembly

/-! ## The listing of a machine -/

/-- What an operation that carries out nothing does with the listing. -/
def hostChanges (m : Machine) : Operation → List Change
  | .renumber => [.renumber]
  | o => if m.startsOver o then [.clear] else []

/-- What a move does with the listing. -/
def listingChanges (m : Machine) : Move → List Change
  | .step => if m.waiting then [] else [.visit m.memory m.pc]
  | .host o _ => m.hostChanges o
  | .stop _ | .endFrame | .files _ => []

/-- What some moves do with the listing, one after another. -/
def allListingChanges (m : Machine) : List Move → List Change
  | [] => []
  | mv :: ms => m.listingChanges mv ++ (m.move mv).allListingChanges ms

section
variable {m : Machine} {o : Operation}

theorem hostChanges_of_startsOver (anew : m.startsOver o = true) : m.hostChanges o = [.clear] := by
  cases o with
  | load | loadFile => exact if_pos anew
  | reset | unload => rfl
  | _ => cases anew

theorem hostChanges_of_goesOn (goesOn : m.startsOver o = false) :
    m.hostChanges o = [] ∨ o = .renumber := by
  cases o with
  | renumber => exact .inr rfl
  | load | loadFile => exact .inl (if_neg (ne_true_of_eq_false goesOn))
  | reset | unload => cases goesOn
  | _ => exact .inl rfl

theorem disassembly_apply (quiet : o.runs = false) :
    (m.apply o).disassembly = m.disassembly.changed (m.hostChanges o) := by
  cases anew : m.startsOver o with
  | true =>
    rw [(startedOver anew).disassembly, hostChanges_of_startsOver anew]
    rfl
  | false =>
    cases o with
    | load | loadFile =>
      rcases hostChanges_of_goesOn anew with idle | other
      · rw [apply, apply_of_not_isOk anew, idle]
        rfl
      · cases other
    | reset | unload => cases anew
    | step | tick | frame => cases quiet
    | pressKey key =>
      rw [apply, pressKey_eq]
      rfl
    | findBreakpoint =>
      rw [apply, findBreakpoint_eq]
      rfl
    | _ => rfl

end

theorem disassembly_move (m : Machine) (mv : Move) :
    (m.move mv).disassembly = m.disassembly.changed (m.listingChanges mv) := by
  cases mv with
  | step =>
    cases waits : m.waiting with
    | true =>
      have idle : m.listingChanges .step = [] := if_pos waits
      rw [move, step_of_waiting waits, idle]
      rfl
    | false =>
      have visits : m.listingChanges .step = [.visit m.memory m.pc] :=
        if_neg (ne_true_of_eq_false waits)
      rw [move, disassembly_step waits, visits]
      rfl
  | host o quiet => exact disassembly_apply quiet
  | stop | endFrame | files => rfl

theorem disassembly_run (m : Machine) (ms : List Move) :
    (m.run ms).disassembly = m.disassembly.changed (m.allListingChanges ms) := by
  induction ms generalizing m with
  | nil => rfl
  | cons mv ms ih =>
    rw [allListingChanges, changed, List.foldl_append]
    change ((m.move mv).run ms).disassembly = _
    rw [ih, disassembly_move]
    rfl

/-- The program is at an address at a step that is carried out after the last time the host started
over. -/
def Stepped (m : Machine) (ms : List Move) (a : Word) : Prop :=
  ∃ past later, ms = past ++ .step :: later ∧ (m.run past).waiting = false ∧
    (m.run past).pc = a ∧ (m.run past).step.Avoids Renews later

theorem isSome_get?_move {m : Machine} {mv : Move} {a : Word} :
    ((m.move mv).disassembly.get? a).isSome ↔
      ¬m.Renews mv ∧ ((m.disassembly.get? a).isSome ∨
        mv = .step ∧ m.waiting = false ∧ m.pc = a) := by
  have kept (same : ((m.move mv).disassembly.get? a).isSome ↔ (m.disassembly.get? a).isSome)
      (goesOn : ¬m.Renews mv) (idle : ¬(mv = .step ∧ m.waiting = false ∧ m.pc = a)) :
      ((m.move mv).disassembly.get? a).isSome ↔ ¬m.Renews mv ∧
        ((m.disassembly.get? a).isSome ∨ mv = .step ∧ m.waiting = false ∧ m.pc = a) :=
    same.trans ⟨fun listed => ⟨goesOn, .inl listed⟩, fun h => h.2.resolve_right idle⟩
  cases mv with
  | step =>
    cases waits : m.waiting with
    | true =>
      rw [waits] at kept
      refine kept ?_ id fun reached => ?_
      · rw [move, step_of_waiting waits]
      · cases reached.2.1
    | false =>
      rw [move, disassembly_step waits, isSome_get?_visit]
      exact ⟨fun h => ⟨id, h.imp_right fun pc => ⟨rfl, rfl, pc⟩⟩, fun h => h.2.imp_right (·.2.2)⟩
  | host o quiet =>
    cases anew : m.startsOver o with
    | true =>
      rw [move, (startedOver anew).disassembly, get?_empty]
      exact iff_of_false Bool.false_ne_true fun h => h.1 anew
    | false =>
      refine kept ?_ (fun renews => ?_) fun reached => ?_
      · rcases hostChanges_of_goesOn anew with idle | rfl
        · rw [move, disassembly_apply quiet, idle]
          exact Iff.rfl
        · exact isSome_get?_renumber
      · cases anew.symm.trans renews
      · cases reached.1
  | stop | endFrame | files =>
    refine kept Iff.rfl id fun reached => ?_
    cases reached.1

theorem isSome_get?_run {m : Machine} (unlisted : m.disassembly = .empty) {ms : List Move}
    {a : Word} : ((m.run ms).disassembly.get? a).isSome ↔ m.Stepped ms a := by
  -- From the last move back, as only the last one that starts over counts.
  induction ms using List.reverseRecOn with
  | nil =>
    rw [run_nil, unlisted, get?_empty]
    refine iff_of_false nofun ?_
    rintro ⟨past, later, whole, -⟩
    cases past <;> cases whole
  | append_singleton ms mv ih =>
    rw [run_append]
    change (((m.run ms).move mv).disassembly.get? a).isSome ↔ _
    rw [isSome_get?_move, ih]
    constructor
    · rintro ⟨goesOn, ⟨past, later, rfl, awaited, pc, kept⟩ | ⟨rfl, awaited, pc⟩⟩
      · refine ⟨past, later ++ [mv], List.append_assoc .., awaited, pc, ?_⟩
        refine avoids_append.mpr ⟨kept, ?_⟩
        rw [run_append] at goesOn
        exact ⟨goesOn, trivial⟩
      · exact ⟨ms, [], rfl, awaited, pc, trivial⟩
    · rintro ⟨past, later, whole, awaited, pc, kept⟩
      rcases split_concat.mp whole with ⟨rfl, rfl, rfl⟩ | ⟨rest, rfl, rfl⟩
      · exact ⟨id, .inr ⟨rfl, awaited, pc⟩⟩
      · obtain ⟨kept, goesOn, -⟩ := avoids_append.mp kept
        rw [run_append]
        exact ⟨goesOn, .inl ⟨past, rest, rfl, awaited, pc, kept⟩⟩

/-- **The orders of the listing.** However addresses are visited, renumbered and cleared, the lines
lie in order of address, one for each address visited since the last time everything was cleared,
numbered in order of first visit and showing what memory held then. After renumbering, the indices
are the positions of the lines until another address is visited; one that has a line is not visited
again. A machine lists the addresses at which it carried out a step since the host last started
over. -/
theorem visit_order :
    (∀ cs, (empty.changed cs).InOrder (firstVisits cs)) ∧
    (∀ cs (k : Nat) (a : Word) (m : Memory), (firstVisits cs)[k]? = some (a, m) ↔
      Since (fun past c => c = .visit m a ∧ a ∉ (firstVisits past).map Prod.fst ∧
        (firstVisits past).length = k) cs) ∧
    (∀ cs a, a ∈ (firstVisits cs).map Prod.fst ↔ Since (fun _ c => ∃ m, c = .visit m a) cs) ∧
    (∀ {past later : List Change}, (empty.changed past).renumber.AddsNone later →
      ((empty.changed past).renumber.changed later).Ranked) ∧
    (∀ {d : Disassembly} {m : Memory} {a : Word}, (d.get? a).isSome → d.visit m a = d) ∧
    (∀ random ms, ((fresh random).run ms).disassembly =
      empty.changed ((fresh random).allListingChanges ms)) ∧
    (∀ random ms a, (((fresh random).run ms).disassembly.get? a).isSome ↔
      (fresh random).Stepped ms a) :=
  ⟨fun cs => (lists_firstVisits cs).inOrder, fun _ _ _ _ => getElem?_firstVisits,
    fun _ _ => mem_firstVisits, ranked_changed, visit_of_known,
    fun random ms => (fresh random).disassembly_run ms,
    fun random _ _ => isSome_get?_run (m := fresh random) rfl⟩

/-- Two addresses, the higher one first, and it once more after renumbering. -/
theorem visit_order_downwards :
    let m := Memory.blank
    let past : List Change := [.visit m 0x204, .visit m 0x200]
    let later : List Change := [.visit m 0x204]
    let d := (empty.changed past).renumber
    d.AddsNone later ∧ (d.changed later).Ranked ∧
    (d.get? 0x204).isSome ∧ d.visit m 0x204 = d := by
  intro m past later d
  clear_value m
  have visited : empty.changed past = (empty.visit m 0x204).visit m 0x200 := rfl
  have known : (d.get? 0x204).isSome := by
    rw [isSome_get?_renumber, visited, isSome_get?_visit, isSome_get?_visit]
    exact .inl (.inr rfl)
  have adds : d.AddsNone later := by
    refine ⟨fun m' a same => ?_, trivial⟩
    cases same
    exact known
  exact ⟨adds, visit_order.2.2.2.1 adds, known, visit_order.2.2.2.2.1 known⟩

end Machine

end XoChip
