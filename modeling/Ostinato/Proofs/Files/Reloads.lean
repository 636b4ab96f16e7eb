import Mathlib.Data.List.Basic
import Mathlib.Data.List.Induction
import Ostinato.Files.Watcher
import Ostinato.Proofs.History

/-!
  Ostinato.Proofs.Files.Reloads: which files are loaded again, said of what was asked before.

  A watcher remembers which files it watches and when each was last reloaded. Both can be read
  off the record of what was asked and answered (`Follows`, kept by every call while the clock does
  not go back): a file is watched if it was to be watched and not given up since, and its last
  reload is the latest in the record since it was given up. So the record alone says what is
  to be reloaded (`expected`).

  Where paths lead and which directories can be watched is up to the file system, which may be
  another one at every call.
-/

namespace Ostinato

/-! ## First mentions -/

section

variable {α : Type} [BEq α] [LawfulBEq α]

omit [LawfulBEq α] in
theorem length_filter_ne_lt (a : α) (l : List α) : (l.filter fun b => !b == a).length < (a :: l).length :=
  Nat.lt_succ_of_le (List.length_filter_le ..)

theorem nodup_eraseDups : ∀ l : List α, l.eraseDups.Nodup
  | [] => List.nodup_nil
  | a :: l => by
    rw [List.eraseDups_cons]
    exact List.nodup_cons.mpr ⟨by simp [List.mem_eraseDups], nodup_eraseDups _⟩
termination_by l => l.length
decreasing_by exact length_filter_ne_lt a l

/-- What is left out can be left out before the repetitions are, or after. -/
theorem eraseDups_filter (p : α → Bool) : ∀ l : List α, (l.filter p).eraseDups = l.eraseDups.filter p
  | [] => rfl
  | a :: l => by
    have ih := eraseDups_filter p (l.filter fun b => !b == a)
    rw [List.eraseDups_cons]
    by_cases ha : p a = true
    · rw [List.filter_cons_of_pos ha, List.filter_cons_of_pos ha, List.eraseDups_cons, ← ih, List.filter_filter,
        List.filter_filter]
      simp only [Bool.and_comm]
    · have hsame : (l.filter fun b => !b == a).filter p = l.filter p := by
        rw [List.filter_filter]
        refine List.filter_congr fun b _ => ?_
        by_cases hb : b = a
        · simp [hb, ha]
        · simp [hb]
      rw [List.filter_cons_of_neg ha, List.filter_cons_of_neg ha, ← ih, hsame]
termination_by l => l.length
decreasing_by exact length_filter_ne_lt a l

end

namespace Files

/-! ## Calls -/

/-- A file system as a watcher sees it: where a path leads, where it stands as it is written, and
    whether there are notices of a directory. -/
structure FileSystem where
  resolve : String → Except Fault Place
  written : String → Place
  notifies : Place → Bool

/-- A tree of files, in which every directory can be watched. -/
def Tree.fileSystem (t : Tree) : FileSystem := ⟨t.resolve, t.written, fun _ => true⟩

/-- The place of a path in a notice; one that leads nowhere stands for itself. -/
def FileSystem.placeOf (fs : FileSystem) (path : String) : Place :=
  match fs.resolve path with
  | .ok file => file
  | .error _ => fs.written path

inductive Call where
  | watch (fs : FileSystem) (path : String)
  | unwatch (fs : FileSystem) (path : String)
  | notice (fs : FileSystem) (change : Change) (paths : List String) (now : ℕ)

namespace Call

/-- The file that is watched from a call on. -/
def watched? : Call → Option Place
  | watch fs path => match fs.resolve path with
    | .ok file => if fs.notifies (Watcher.directoryOf file) then some file else none
    | .error _ => none
  | _ => none

def givenUp? : Call → Option Place
  | unwatch fs path => (fs.resolve path).toOption
  | _ => none

def time? : Call → Option ℕ
  | notice _ _ _ now => some now
  | _ => none

/-- A call without what it says of some files. -/
def only (keep : Place → Bool) : Call → Call
  | notice fs change paths now => notice fs change (paths.filter fun path => keep (fs.placeOf path)) now
  | c => c

end Call

/-- A call and the files to reload that were the answer. -/
structure Entry where
  call : Call
  answer : List Place

namespace Watcher

def call (w : Watcher) (c : Call) : Watcher × List Place :=
  match c with
  | .watch .. => ((c.watched?.map w.insert).getD w, [])
  | .unwatch .. => ((c.givenUp?.map fun file => (w.erase file).1).getD w, [])
  | .notice fs change paths now => w.notice change (paths.map fs.placeOf) now

/-- The calls of a program go to the files that are there. -/
theorem call_fileSystem (w : Watcher) (t : Tree) (path : String) (change : Change) (paths : List String) (now : ℕ) :
    w.call (.watch t.fileSystem path) = (((w.watch t path).toOption.map (·.1)).getD w, []) ∧
    w.call (.unwatch t.fileSystem path) = ((w.unwatch t path).1, []) ∧
    w.call (.notice t.fileSystem change paths now) = w.notice change (paths.map (placeOf t)) now := by
  refine ⟨?_, ?_, rfl⟩
  · simp only [call, watch, Call.watched?, Tree.fileSystem]
    cases t.resolve path <;> rfl
  · simp only [call, unwatch, Call.givenUp?, Tree.fileSystem]
    cases t.resolve path <;> rfl

def record (calls : List Call) : Watcher × List Entry :=
  calls.foldl (fun r c => ((r.1.call c).1, r.2 ++ [⟨c, (r.1.call c).2⟩])) (empty, [])

theorem record_concat (calls : List Call) (c : Call) :
    record (calls ++ [c]) =
      (((record calls).1.call c).1, (record calls).2 ++ [⟨c, ((record calls).1.call c).2⟩]) := by
  rw [record, List.foldl_concat]
  rfl

end Watcher

/-! ## What the record says -/

/-- Whether a file was to be watched and was not given up since. -/
def Watched (log : List Entry) (file : Place) : Prop :=
  Lasts (fun e => e.call.watched? = some file) (fun e => e.call.givenUp? = some file) log

/-- Whether a file was reloaded at a moment and was not given up since. -/
def Reloaded (log : List Entry) (file : Place) (time : ℕ) : Prop :=
  Lasts (fun e => e.call.time? = some time ∧ file ∈ e.answer) (fun e => e.call.givenUp? = some file) log

/-- Whether a file was reloaded less than `debounce` before a moment, since it was last given up. -/
def Recent (log : List Entry) (file : Place) (now : ℕ) : Prop :=
  ∃ time, Reloaded log file time ∧ now < time + Watcher.debounce

open Classical in
/-- The files to reload: of those that changed the ones that are watched and were not reloaded
    recently, each where it is first mentioned. -/
noncomputable def expected (log : List Entry) : Call → List Place
  | .notice fs change paths now =>
    if change = .modify ∨ change = .create then
      (paths.map fs.placeOf).eraseDups.filter fun file => Watched log file ∧ ¬ Recent log file now
    else []
  | _ => []

/-! ## What the watcher remembers -/

namespace Watcher

variable {w : Watcher} {file : Place} {now : ℕ}

def last? (w : Watcher) (file : Place) : Option ℕ := (w.reloads.find? (·.1 == file)).map (·.2)

theorem isRecent_eq_true : w.isRecent file now = true ↔ ∃ last, w.last? file = some last ∧ now - last < debounce := by
  unfold isRecent last?
  cases w.reloads.find? (·.1 == file) <;> simp

theorem find?_forget (reloads : List (Place × ℕ)) (file f : Place) :
    (reloads.filter (·.1 != file)).find? (·.1 == f) = if f = file then none else reloads.find? (·.1 == f) := by
  rw [List.find?_filter]
  by_cases hf : f = file
  · rw [if_pos hf, List.find?_eq_none]
    simp [hf]
  · rw [if_neg hf]
    congr 1
    funext r
    by_cases hr : r.1 = f
    · simp [hr, hf]
    · simp [hr]

theorem last?_reload (w : Watcher) (file f : Place) (now : ℕ) :
    (w.reload file now).last? f = if f = file then some now else w.last? f := by
  unfold last? reload
  by_cases hf : f = file
  · simp [hf]
  · rw [List.find?_cons_of_neg (by simpa using Ne.symm hf), find?_forget, if_neg hf, if_neg hf]

theorem erase_eq (w : Watcher) (file : Place) : ∃ directories, (w.erase file).1 =
    { files := w.files.filter (· != file), directories, reloads := w.reloads.filter (·.1 != file) } := by
  simp only [erase]
  split
  · exact ⟨_, rfl⟩
  · split <;> exact ⟨_, rfl⟩

theorem mem_files_erase (w : Watcher) (file f : Place) : f ∈ (w.erase file).1.files ↔ f ∈ w.files ∧ f ≠ file := by
  obtain ⟨directories, heq⟩ := w.erase_eq file
  rw [heq, List.mem_filter, bne_iff_ne]

theorem last?_erase (w : Watcher) (file f : Place) :
    (w.erase file).1.last? f = if f = file then none else w.last? f := by
  obtain ⟨directories, heq⟩ := w.erase_eq file
  rw [heq, last?, find?_forget]
  split <;> rfl

theorem isRecent_reload (w : Watcher) (file f : Place) (now : ℕ) :
    (w.reload file now).isRecent f now = (f == file || w.isRecent f now) := by
  rw [Bool.eq_iff_iff, Bool.or_eq_true, beq_iff_eq, isRecent_eq_true, isRecent_eq_true, last?_reload]
  by_cases hf : f = file
  · simp [hf, debounce]
  · simp [hf]

/-- Whether a file is reloaded when it changes. -/
def isDue (w : Watcher) (now : ℕ) (file : Place) : Bool := w.files.contains file && !w.isRecent file now

/-- A notice reloads what is due, each where it is first mentioned, and remembers that. -/
structure Noticed (w : Watcher) (now : ℕ) (places : List Place) (r : Watcher × List Place) : Prop where
  answer : r.2 = places.eraseDups.filter (w.isDue now)
  files : r.1.files = w.files
  last : ∀ f, r.1.last? f = if f ∈ r.2 then some now else w.last? f

theorem due_cons_of_due {rest : List Place} (h : w.isDue now file = true) :
    due now w (file :: rest) = ((due now (w.reload file now) rest).1, file :: (due now (w.reload file now) rest).2) :=
  if_pos h

theorem due_cons_of_not_due {rest : List Place} (h : w.isDue now file = false) :
    due now w (file :: rest) = due now w rest := if_neg (by rw [← isDue, h]; exact Bool.false_ne_true)

theorem isDue_reload (w : Watcher) (file f : Place) (now : ℕ) :
    (w.reload file now).isDue now f = (w.isDue now f && !f == file) := by
  rw [isDue, isRecent_reload, isDue, Bool.not_or, ← Bool.and_assoc, Bool.and_right_comm]
  rfl

theorem noticed_due (w : Watcher) (now : ℕ) (places : List Place) : Noticed w now places (due now w places) := by
  induction places generalizing w with
  | nil => exact ⟨rfl, rfl, fun _ => rfl⟩
  | cons file rest ih =>
    have hrest := eraseDups_filter (fun b => !b == file) rest
    cases hdue : w.isDue now file with
    | true =>
      -- A file that was just reloaded is recent, so the rest of the notice passes it over.
      obtain ⟨hanswer, hfiles, hlast⟩ := ih (w.reload file now)
      rw [due_cons_of_due hdue]
      refine ⟨?_, hfiles, fun f => ?_⟩
      · rw [hanswer, List.eraseDups_cons, List.filter_cons_of_pos hdue, hrest, List.filter_filter]
        exact congrArg _ (List.filter_congr fun f _ => w.isDue_reload file f now)
      · rw [hlast, last?_reload]
        by_cases hmem : f ∈ (due now (w.reload file now) rest).2
        · rw [if_pos hmem, if_pos (List.mem_cons_of_mem _ hmem)]
        · by_cases hf : f = file
          · rw [if_neg hmem, if_pos hf, if_pos (hf ▸ List.mem_cons_self ..)]
          · rw [if_neg hmem, if_neg hf, if_neg (by simpa [hf] using hmem)]
    | false =>
      obtain ⟨hanswer, hfiles, hlast⟩ := ih w
      rw [due_cons_of_not_due hdue]
      refine ⟨?_, hfiles, hlast⟩
      rw [hanswer, List.eraseDups_cons, List.filter_cons_of_neg (by simp [hdue]), hrest, List.filter_filter]
      refine List.filter_congr fun f _ => ?_
      by_cases hf : f = file
      · simp [hf, hdue]
      · simp [hf]

end Watcher

/-! ## Call after call -/

variable {w : Watcher} {log : List Entry} {c : Call} {answer : List Place} {file : Place} {time now : ℕ}

theorem watched_concat : Watched (log ++ [⟨c, answer⟩]) file ↔
    c.watched? = some file ∨ Watched log file ∧ c.givenUp? ≠ some file := lasts_concat

theorem reloaded_concat : Reloaded (log ++ [⟨c, answer⟩]) file time ↔
    (c.time? = some time ∧ file ∈ answer) ∨ Reloaded log file time ∧ c.givenUp? ≠ some file := lasts_concat

/-- Calls at moments that do not go back. -/
def InOrder (calls : List Call) : Prop := (calls.filterMap Call.time?).Pairwise (· ≤ ·)

instance (calls : List Call) : Decidable (InOrder calls) := inferInstanceAs (Decidable (List.Pairwise _ _))

/-- No reload of a record is later than a call. -/
def Precedes (log : List Entry) (c : Call) : Prop :=
  ∀ file time now, Reloaded log file time → c.time? = some now → time ≤ now

/-- A watcher remembers what its record says. -/
structure Follows (log : List Entry) (w : Watcher) : Prop where
  files : ∀ file, file ∈ w.files ↔ Watched log file
  reloaded : ∀ file last, w.last? file = some last → Reloaded log file last
  latest : ∀ file time, Reloaded log file time → ∃ last, w.last? file = some last ∧ time ≤ last

namespace Follows

theorem start : Follows [] .empty :=
  ⟨fun _ => ⟨nofun, fun h => absurd h not_lasts_nil⟩, nofun, fun _ _ h => absurd h not_lasts_nil⟩

theorem isRecent_iff (h : Follows log w) : w.isRecent file now = true ↔ Recent log file now := by
  rw [Watcher.isRecent_eq_true]
  constructor
  · intro hrecent
    obtain ⟨last, hlast, hlt⟩ := hrecent
    have hpos : 0 < Watcher.debounce := by decide
    exact ⟨last, h.reloaded file last hlast, by omega⟩
  · intro hrecent
    obtain ⟨time, htime, hlt⟩ := hrecent
    obtain ⟨last, hlast, hle⟩ := h.latest file time htime
    have hpos : 0 < Watcher.debounce := by decide
    exact ⟨last, hlast, by omega⟩

theorem isDue_iff (h : Follows log w) : w.isDue now file = true ↔ Watched log file ∧ ¬ Recent log file now := by
  rw [Watcher.isDue, Bool.and_eq_true, List.contains_iff_mem, h.files, ← h.isRecent_iff, Bool.not_eq_true',
    Bool.not_eq_true]

theorem idle (h : Follows log w) (hwatched : c.watched? = none) (hgivenUp : c.givenUp? = none) :
    Follows (log ++ [⟨c, []⟩]) w where
  files file := by rw [watched_concat, hwatched, hgivenUp, h.files]; simp
  reloaded file last hlast := reloaded_concat.mpr (.inr ⟨h.reloaded file last hlast, by simp [hgivenUp]⟩)
  latest file time htime := by
    rcases reloaded_concat.mp htime with ⟨-, hmem⟩ | ⟨htime, -⟩
    · exact absurd hmem List.not_mem_nil
    · exact h.latest file time htime

theorem insert (h : Follows log w) (hwatched : c.watched? = some file) (hgivenUp : c.givenUp? = none) :
    Follows (log ++ [⟨c, []⟩]) (w.insert file) where
  files f := by
    rw [watched_concat, hwatched, hgivenUp, Watcher.insert, List.mem_insert_iff, h.files]
    simp [eq_comm]
  reloaded f last hlast := reloaded_concat.mpr (.inr ⟨h.reloaded f last hlast, by simp [hgivenUp]⟩)
  latest f time htime := by
    rcases reloaded_concat.mp htime with ⟨-, hmem⟩ | ⟨htime, -⟩
    · exact absurd hmem List.not_mem_nil
    · exact h.latest f time htime

theorem erase (h : Follows log w) (hwatched : c.watched? = none) (hgivenUp : c.givenUp? = some file) :
    Follows (log ++ [⟨c, []⟩]) (w.erase file).1 where
  files f := by
    rw [watched_concat, hwatched, hgivenUp, Watcher.mem_files_erase, h.files]
    simp [eq_comm]
  reloaded f last hlast := by
    rw [Watcher.last?_erase] at hlast
    by_cases hf : f = file
    · simp [hf] at hlast
    · rw [if_neg hf] at hlast
      exact reloaded_concat.mpr (.inr ⟨h.reloaded f last hlast, by simpa [hgivenUp, eq_comm] using hf⟩)
  latest f time htime := by
    rcases reloaded_concat.mp htime with ⟨-, hmem⟩ | ⟨htime, hkept⟩
    · exact absurd hmem List.not_mem_nil
    · have hf : f ≠ file := fun hf => hkept (hf ▸ hgivenUp)
      rw [Watcher.last?_erase, if_neg hf]
      exact h.latest f time htime

theorem notice (h : Follows log w) {places : List Place} {r : Watcher × List Place} (hnotice : w.Noticed now places r)
    (hgivenUp : c.givenUp? = none) (hwatched : c.watched? = none) (htime : c.time? = some now)
    (hprecedes : Precedes log c) : Follows (log ++ [⟨c, r.2⟩]) r.1 where
  files f := by rw [watched_concat, hwatched, hgivenUp, hnotice.files, h.files]; simp
  reloaded f last hlast := by
    rw [hnotice.last] at hlast
    by_cases hmem : f ∈ r.2
    · rw [if_pos hmem] at hlast
      exact reloaded_concat.mpr (.inl ⟨htime.trans hlast, hmem⟩)
    · rw [if_neg hmem] at hlast
      exact reloaded_concat.mpr (.inr ⟨h.reloaded f last hlast, by simp [hgivenUp]⟩)
  latest f time hreloaded := by
    rw [hnotice.last]
    by_cases hmem : f ∈ r.2
    · rw [if_pos hmem]
      rcases reloaded_concat.mp hreloaded with ⟨heq, -⟩ | ⟨hbefore, -⟩
      · exact ⟨now, rfl, Nat.le_of_eq (Option.some.inj (heq.symm.trans htime))⟩
      · exact ⟨now, rfl, hprecedes f time now hbefore htime⟩
    · rw [if_neg hmem]
      rcases reloaded_concat.mp hreloaded with ⟨-, hmem'⟩ | ⟨hbefore, -⟩
      · exact absurd hmem' hmem
      · exact h.latest f time hbefore

theorem call (h : Follows log w) (hprecedes : Precedes log c) :
    Follows (log ++ [⟨c, (w.call c).2⟩]) (w.call c).1 := by
  cases c with
  | watch fs path =>
    rw [Watcher.call]
    cases hwatched : (Call.watch fs path).watched? with
    | none => exact h.idle hwatched rfl
    | some file => exact h.insert hwatched rfl
  | unwatch fs path =>
    rw [Watcher.call]
    cases hgivenUp : (Call.unwatch fs path).givenUp? with
    | none => exact h.idle rfl hgivenUp
    | some file => exact h.erase rfl hgivenUp
  | notice fs change paths now =>
    rw [Watcher.call, Watcher.notice]
    split
    · exact h.notice (w.noticed_due now (paths.map fs.placeOf)) rfl rfl rfl hprecedes
    · exact h.idle rfl rfl

/-- What is answered is what the record says. -/
theorem answer_eq (h : Follows log w) (c : Call) : (w.call c).2 = expected log c := by
  cases c with
  | watch fs path => rfl
  | unwatch fs path => rfl
  | notice fs change paths now =>
    rw [Watcher.call, Watcher.notice, expected]
    have hmatters : change.matters = true ↔ change = .modify ∨ change = .create := by cases change <;> decide
    by_cases hchange : change.matters = true
    · rw [if_pos hchange, if_pos (hmatters.mp hchange), (w.noticed_due now _).answer]
      refine List.filter_congr fun file _ => ?_
      classical
      rw [Bool.eq_iff_iff, h.isDue_iff, decide_eq_true_eq]
    · rw [if_neg hchange, if_neg (mt hmatters.mpr hchange)]

end Follows

/-! ## The whole record -/

theorem calls_record (calls : List Call) : (Watcher.record calls).2.map (·.call) = calls := by
  induction calls using List.reverseRecOn with
  | nil => rfl
  | append_singleton calls c ih => rw [Watcher.record_concat, List.map_append, ih]; rfl

/-- While the clock does not go back, reloads come before what is called next. -/
theorem precedes_of_inOrder {calls : List Call} (h : InOrder (calls ++ [c])) : Precedes (Watcher.record calls).2 c := by
  intro file time now hreloaded hnow
  obtain ⟨before, e, after, heq, ⟨htime, -⟩, -⟩ := hreloaded
  have hmem : e.call ∈ calls := by
    rw [← calls_record calls, heq]
    simp
  rw [InOrder, List.filterMap_append] at h
  refine (List.pairwise_append.mp h).2.2 time (List.mem_filterMap.mpr ⟨e.call, hmem, htime⟩) now ?_
  exact List.mem_filterMap.mpr ⟨c, List.mem_singleton_self c, hnow⟩

theorem follows_record {calls : List Call} (h : InOrder calls) :
    Follows (Watcher.record calls).2 (Watcher.record calls).1 := by
  induction calls using List.reverseRecOn with
  | nil => exact .start
  | append_singleton calls c ih =>
    have hbefore : InOrder calls := by
      rw [InOrder, List.filterMap_append] at h
      exact (List.pairwise_append.mp h).1
    rw [Watcher.record_concat]
    exact (ih hbefore).call (precedes_of_inOrder h)

/-- Every answer of a record is what the record before it says. -/
theorem answer_expected {calls : List Call} (h : InOrder calls) {before after : List Entry}
    (hplace : (Watcher.record calls).2 = before ++ ⟨c, answer⟩ :: after) : answer = expected before c := by
  induction calls using List.reverseRecOn generalizing after with
  | nil => simp [Watcher.record] at hplace
  | append_singleton calls c' ih =>
    have hbefore : InOrder calls := by
      rw [InOrder, List.filterMap_append] at h
      exact (List.pairwise_append.mp h).1
    rw [Watcher.record_concat] at hplace
    rcases place_concat hplace with ⟨rfl, heq, -⟩ | ⟨rest, -, hplace'⟩
    · obtain ⟨rfl, rfl⟩ := Entry.mk.inj heq
      exact (follows_record hbefore).answer_eq c'
    · exact ih hbefore hplace'

theorem nodup_expected (log : List Entry) (c : Call) : (expected log c).Nodup := by
  cases c with
  | watch fs path => exact List.nodup_nil
  | unwatch fs path => exact List.nodup_nil
  | notice fs change paths now =>
    by_cases hchange : change = .modify ∨ change = .create
    · rw [expected, if_pos hchange]
      exact (nodup_eraseDups (paths.map fs.placeOf)).filter _
    · rw [expected, if_neg hchange]
      exact List.nodup_nil

theorem not_recent_of_expected (h : file ∈ expected log c) (hnow : c.time? = some now) : ¬ Recent log file now := by
  cases c with
  | watch fs path => cases h
  | unwatch fs path => cases h
  | notice fs change paths now' =>
    obtain rfl := Option.some.inj hnow
    by_cases hchange : change = .modify ∨ change = .create
    · rw [expected, if_pos hchange, List.mem_filter] at h
      classical exact (of_decide_eq_true h.2).2
    · rw [expected, if_neg hchange] at h
      cases h

/-! ## Files apart -/

/-- Watchers that remember the same of some files. -/
structure Alike (keep : Place → Bool) (w w' : Watcher) : Prop where
  files : w'.files = w.files
  last : ∀ f, keep f = true → w'.last? f = w.last? f

namespace Alike

variable {keep : Place → Bool} {w' : Watcher}

theorem isDue (h : Alike keep w w') (hkeep : keep file = true) : w'.isDue now file = w.isDue now file := by
  have hrecent : w'.isRecent file now = w.isRecent file now := by
    rw [Bool.eq_iff_iff, Watcher.isRecent_eq_true, Watcher.isRecent_eq_true, h.last file hkeep]
  rw [Watcher.isDue, Watcher.isDue, h.files, hrecent]

theorem erase (h : Alike keep w w') (file : Place) : Alike keep (w.erase file).1 (w'.erase file).1 where
  files := by
    obtain ⟨_, heq⟩ := w.erase_eq file
    obtain ⟨_, heq'⟩ := w'.erase_eq file
    rw [heq, heq', h.files]
  last f hf := by rw [Watcher.last?_erase, Watcher.last?_erase, h.last f hf]

/-- Left out of a notice, some files are left out of the answer, and nothing else changes. -/
theorem noticed (h : Alike keep w w') {places : List Place} {r r' : Watcher × List Place}
    (hr : w.Noticed now places r) (hr' : w'.Noticed now (places.filter keep) r') :
    r'.2 = r.2.filter keep ∧ Alike keep r.1 r'.1 := by
  have hanswer : r'.2 = r.2.filter keep := by
    rw [hr.answer, hr'.answer, eraseDups_filter, List.filter_filter, List.filter_filter]
    refine List.filter_congr fun f _ => ?_
    by_cases hf : keep f = true
    · rw [h.isDue hf, hf, Bool.and_true, Bool.true_and]
    · rw [Bool.eq_false_iff.mpr hf, Bool.and_false, Bool.false_and]
  refine ⟨hanswer, hr'.files.trans (h.files.trans hr.files.symm), fun f hf => ?_⟩
  have hmem : f ∈ r'.2 ↔ f ∈ r.2 := by rw [hanswer, List.mem_filter, and_iff_left hf]
  rw [hr.last, hr'.last, h.last f hf, if_congr hmem rfl rfl]

theorem call (h : Alike keep w w') (c : Call) :
    (w'.call (c.only keep)).2 = (w.call c).2.filter keep ∧ Alike keep (w.call c).1 (w'.call (c.only keep)).1 := by
  cases c with
  | watch fs path =>
    refine ⟨rfl, ?_⟩
    simp only [Call.only, Watcher.call]
    cases (Call.watch fs path).watched? with
    | none => exact h
    | some file => exact ⟨congrArg (List.insert file) h.files, h.last⟩
  | unwatch fs path =>
    refine ⟨rfl, ?_⟩
    simp only [Call.only, Watcher.call]
    cases (Call.unwatch fs path).givenUp? with
    | none => exact h
    | some file => exact h.erase file
  | notice fs change paths now =>
    have hplaces : (paths.filter fun path => keep (fs.placeOf path)).map fs.placeOf =
        (paths.map fs.placeOf).filter keep := List.filter_map.symm
    rw [Call.only, Watcher.call, Watcher.call, hplaces, Watcher.notice, Watcher.notice]
    split
    · exact h.noticed (w.noticed_due now _) (w'.noticed_due now _)
    · exact ⟨rfl, h⟩

end Alike

theorem alike_record (keep : Place → Bool) (calls : List Call) :
    (Watcher.record (calls.map (·.only keep))).2.map (·.answer) =
      (Watcher.record calls).2.map (·.answer.filter keep) ∧
    Alike keep (Watcher.record calls).1 (Watcher.record (calls.map (·.only keep))).1 := by
  induction calls using List.reverseRecOn with
  | nil => exact ⟨rfl, rfl, fun _ _ => rfl⟩
  | append_singleton calls c ih =>
    obtain ⟨hanswers, halike⟩ := ih
    obtain ⟨hanswer, halike'⟩ := halike.call c
    rw [List.map_append, List.map_singleton, Watcher.record_concat, Watcher.record_concat]
    refine ⟨?_, halike'⟩
    rw [List.map_append, List.map_append, hanswers, List.map_singleton, List.map_singleton, hanswer]

/-- Whatever is asked of a watcher, whatever the file system answers, every notice reloads exactly the
    files that the record of the calls before says: those that are watched and not recently
    reloaded. So two reloads of a file that is not given up between them are `debounce` apart,
    and what is said of some files changes nothing for the others. Where every directory can be watched
    the calls are those of a program on its tree of files. -/
theorem reloads_are_debounced_changes {calls : List Call} (h : InOrder calls) :
    let log := (Watcher.record calls).2
    log.map (·.call) = calls ∧
    (∀ before c answer after, log = before ++ ⟨c, answer⟩ :: after → answer = expected before c ∧ answer.Nodup) ∧
    (∀ before x between y after file s t, log = before ++ x :: between ++ y :: after →
      file ∈ x.answer → file ∈ y.answer → x.call.time? = some s → y.call.time? = some t →
      (∀ e ∈ between, e.call.givenUp? ≠ some file) → s + Watcher.debounce ≤ t) ∧
    (∀ keep : Place → Bool, (Watcher.record (calls.map (·.only keep))).2.map (·.answer) =
      log.map (·.answer.filter keep)) ∧
    ∀ (w : Watcher) (t : Tree) path change paths now,
      w.call (.watch t.fileSystem path) = (((w.watch t path).toOption.map (·.1)).getD w, []) ∧
      w.call (.unwatch t.fileSystem path) = ((w.unwatch t path).1, []) ∧
      w.call (.notice t.fileSystem change paths now) = w.notice change (paths.map (Watcher.placeOf t)) now := by
  intro log
  refine ⟨calls_record calls, fun before c answer after hplace => ?_, ?_, fun keep => (alike_record keep calls).1,
    Watcher.call_fileSystem⟩
  · obtain rfl := answer_expected h hplace
    exact ⟨rfl, nodup_expected before c⟩
  · intro before x between y after file s t hplace hx hy hs ht hkept
    have hmem : file ∈ expected (before ++ x :: between) y.call := answer_expected h hplace ▸ hy
    have hrecent := not_recent_of_expected hmem ht
    by_contra hlt
    exact hrecent ⟨s, ⟨before, x, between, rfl, ⟨hs, hx⟩, hkept⟩, Nat.not_le.mp hlt⟩

/-- Two songs are watched; the first is given up and watched again before its time. -/
theorem reloads_of_two_songs :
    let fs : FileSystem := ⟨fun path => .ok ["songs", path], fun path => [path], fun _ => true⟩
    let calls : List Call := [.watch fs "a", .watch fs "b", .notice fs .create ["a", "b", "a", "c"] 0,
      .notice fs .modify ["b", "a"] 149999999, .unwatch fs "a", .watch fs "a", .notice fs .modify ["b", "a"] 149999999,
      .notice fs .modify ["b"] 150000000]
    (InOrder calls ∧ (Watcher.record calls).2.map (·.answer) =
      [[], [], [["songs", "a"], ["songs", "b"]], [], [], [], [["songs", "a"]], [["songs", "b"]]]) ∧
    ∀ before c answer after, (Watcher.record calls).2 = before ++ ⟨c, answer⟩ :: after →
      answer = expected before c ∧ answer.Nodup := by
  intro fs calls
  have horder : InOrder calls := by decide
  exact ⟨⟨horder, by decide⟩, (reloads_are_debounced_changes horder).2.1⟩

end Files

end Ostinato
