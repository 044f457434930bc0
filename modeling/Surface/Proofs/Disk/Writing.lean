import Surface.Disk.Path
import Surface.Proofs.Disk.Content

/-! # Writing a file

A path leads to the place of a file through directories and links, none of which changes when the
file is put there. So after the file has been written the path leads to it, and at every other
location the disk is as it was.
-/

namespace Surface

open Surface.Path

namespace Disk

/-- There is no file yet, or one that can be replaced. -/
def Takes (d : Disk) (l : Location) : Prop :=
  d.node? l = none ∨ ∃ content, d.node? l = some (.file content)

/-- How names lead to the place of a file, the directory `parent` and the name `file` in it. -/
inductive LeadsToFile (d : Disk) (parent : Location) (file : Text) :
    Nat → Location → List Text → Prop
  | arrive {links : Nat} : d.isDirectory parent = true → ¬ staysHere file = true →
      ¬ goesUp file = true → ¬ maxNameSize < file.byteSize → d.Takes (parent ++ [file]) →
      LeadsToFile d parent file links parent [file]
  | stay {links : Nat} {here : Location} {name : Text} {rest : List Text} :
      d.isDirectory here = true → staysHere name = true →
      LeadsToFile d parent file links here rest →
      LeadsToFile d parent file links here (name :: rest)
  | up {links : Nat} {here : Location} {name : Text} {rest : List Text} :
      d.isDirectory here = true → ¬ staysHere name = true → goesUp name = true →
      LeadsToFile d parent file links here.dropLast rest →
      LeadsToFile d parent file links here (name :: rest)
  | link {links : Nat} {here : Location} {name target : Text} {rest : List Text} :
      d.isDirectory here = true → ¬ staysHere name = true → ¬ goesUp name = true →
      ¬ maxNameSize < name.byteSize → d.node? (here ++ [name]) = some (.link target) →
      LeadsToFile d parent file links (start here target) (names target ++ rest) →
      LeadsToFile d parent file (links + 1) here (name :: rest)
  | enter {links : Nat} {here : Location} {name : Text} {rest : List Text} :
      d.isDirectory here = true → ¬ staysHere name = true → ¬ goesUp name = true →
      ¬ maxNameSize < name.byteSize → d.node? (here ++ [name]) = some .directory →
      LeadsToFile d parent file links (here ++ [name]) rest →
      LeadsToFile d parent file links here (name :: rest)

variable {d e : Disk} {links : Nat} {here parent : Location} {file : Text} {path : List Text}

theorem leadsToFile_of_followToFile
    (h : d.followToFile links here path = .ok (parent, file)) :
    d.LeadsToFile parent file links here path := by
  fun_induction followToFile d links here path with
  | case5 links here name rest hdir _ hstays _ ih => exact .stay (by simpa using hdir) hstays (ih h)
  | case7 links here name rest hdir _ hstays hup _ ih =>
    exact .up (by simpa using hdir) hstays hup (ih h)
  | case10 here name rest hdir _ hstays hup hsize target hlink links ih =>
    exact .link (by simpa using hdir) hstays hup hsize hlink (ih h)
  | case12 links here name rest hdir _ hstays hup hsize hdirectory _ ih =>
    exact .enter (by simpa using hdir) hstays hup hsize hdirectory (ih h)
  | case13 links here name hdir hstays hup hsize content hfile =>
    cases h
    exact .arrive (by simpa using hdir) hstays hup hsize (.inr ⟨content, hfile⟩)
  | case15 links here name hdir hstays hup hsize hnone =>
    cases h
    exact .arrive (by simpa using hdir) hstays hup hsize (.inl hnone)
  | _ => cases h

theorem LeadsToFile.isDirectory (h : d.LeadsToFile parent file links here path) :
    d.isDirectory parent = true := by
  induction h with
  | arrive hdir => exact hdir
  | stay _ _ _ ih | up _ _ _ _ ih | link _ _ _ _ _ _ ih | enter _ _ _ _ _ _ ih => exact ih

theorem LeadsToFile.takes (h : d.LeadsToFile parent file links here path) :
    d.Takes (parent ++ [file]) := by
  induction h with
  | arrive _ _ _ _ htakes => exact htakes
  | stay _ _ _ ih | up _ _ _ _ ih | link _ _ _ _ _ _ ih | enter _ _ _ _ _ _ ih => exact ih

/-- Where only the place of a file differs, what is no such place is the same. -/
theorem node?_eq_of_frame {l k : Location} {node : Node} (htakes : d.Takes l)
    (hframe : ∀ k, k ≠ l → e.node? k = d.node? k) (h : d.node? k = some node)
    (hnode : ∀ content, node ≠ .file content) : e.node? k = some node := by
  rw [hframe k, h]
  rintro rfl
  rcases htakes with hnone | ⟨content, hfile⟩
  · cases h.symm.trans hnone
  · cases h.symm.trans hfile
    exact hnode content rfl

/-- The names lead to the file wherever there is one at this place, also on a disk that holds
another one there: a place that is neither a directory nor a link is on no way. -/
theorem LeadsToFile.follow (h : d.LeadsToFile parent file links here path)
    (hframe : ∀ k, k ≠ parent ++ [file] → e.node? k = d.node? k)
    (htakes : e.Takes (parent ++ [file])) : e.follow links here path =
      if (e.node? (parent ++ [file])).isSome then .ok (parent ++ [file]) else .error .notFound := by
  have hdirectory : ∀ k, d.isDirectory k = true → e.isDirectory k = true := by
    intro k hk
    rw [isDirectory_iff] at hk ⊢
    exact node?_eq_of_frame h.takes hframe hk fun _ => by simp
  induction h with
  | arrive hdir hstays hup hsize _ =>
    rw [Disk.follow, hdirectory _ hdir, if_neg (by simp), if_neg hstays, if_neg hup, if_neg hsize]
    rcases htakes with hnone | ⟨content, hfile⟩
    · rw [hnone]
      rfl
    · rw [hfile]
      simp [Disk.follow]
  | stay hdir hstays _ ih =>
    rw [Disk.follow, hdirectory _ hdir, if_neg (by simp), if_pos hstays]
    exact ih
  | up hdir hstays hup _ ih =>
    rw [Disk.follow, hdirectory _ hdir, if_neg (by simp), if_neg hstays, if_pos hup]
    exact ih
  | link hdir hstays hup hsize hlink hrest ih =>
    have hnode := node?_eq_of_frame hrest.takes hframe hlink fun _ => by simp
    rw [Disk.follow, hdirectory _ hdir, if_neg (by simp), if_neg hstays, if_neg hup, if_neg hsize,
      hnode]
    exact ih
  | enter hdir hstays hup hsize hnode hrest ih =>
    have hnode := node?_eq_of_frame hrest.takes hframe hnode fun _ => by simp
    rw [Disk.follow, hdirectory _ hdir, if_neg (by simp), if_neg hstays, if_neg hup, if_neg hsize,
      hnode]
    exact ih

theorem LeadsToFile.node?_put (h : d.LeadsToFile parent file links here path) (node : Node)
    (k : Location) : (d.put parent file node).node? k =
      if k = parent ++ [file] then some node else d.node? k := by
  have hplace : ¬ d.isDirectory (parent ++ [file]) = true := by
    rw [isDirectory_iff]
    rcases h.takes with hnone | ⟨content, hfile⟩
    · simp [hnone]
    · simp [hfile]
  rw [Disk.node?_put]
  simp only [h.isDirectory, hplace, true_and, Bool.not_eq_true]

end Disk

namespace Workspace

variable {w written : Workspace} {path text : Text} {parent : Location} {file : Text}

/-- The place of the file that is opened to be written at a path. -/
def fileFor (w : Workspace) (path : Text) : Except FileError (Location × Text) :=
  (check path).bind fun _ => w.disk.followToFile maxLinks (start w.current path) (names path)

theorem write_eq (w : Workspace) (path : Text) (content : ByteArray) : w.write path content =
    (w.fileFor path).map fun place =>
      { w with disk := w.disk.put place.1 place.2 (.file content) } := by
  simp only [write, fileFor, bind, Except.bind]
  cases check path with
  | error e => rfl
  | ok _ =>
    dsimp only
    cases w.disk.followToFile maxLinks (start w.current path) (names path) <;> rfl

theorem check_of_fileFor (h : w.fileFor path = .ok (parent, file)) : check path = .ok () := by
  rw [fileFor] at h
  cases hc : check path with
  | error e => rw [hc] at h; cases h
  | ok _ => rfl

theorem leadsToFile_of_fileFor (h : w.fileFor path = .ok (parent, file)) :
    w.disk.LeadsToFile parent file maxLinks (start w.current path) (names path) := by
  rw [fileFor, check_of_fileFor h] at h
  exact Disk.leadsToFile_of_followToFile h

/-- A text has been written at a path: it is in the file at a location, which is where the path
leads now and where it has led before if it has led anywhere. Everything else is as it was. -/
structure Wrote (w written : Workspace) (path text : Text) (l : Location) : Prop where
  resolve : written.resolve path = .ok l
  resolve_before : ∀ k, w.resolve path = .ok k → k = l
  readText : written.readText path = .ok text
  node?_self : written.disk.node? l = some (.file (encode text))
  node?_of_ne : ∀ k, k ≠ l → written.disk.node? k = w.disk.node? k
  takes : w.disk.Takes l
  current : written.current = w.current

theorem wrote_of_fileFor (h : w.fileFor path = .ok (parent, file)) (text : Text) :
    Wrote w { w with disk := w.disk.put parent file (.file (encode text)) } path text
      (parent ++ [file]) := by
  have hleads := leadsToFile_of_fileFor h
  have hcheck := check_of_fileFor h
  have hself := (hleads.node?_put (.file (encode text)) _).trans (if_pos rfl)
  have hframe : ∀ k, k ≠ parent ++ [file] →
      (w.disk.put parent file (.file (encode text))).node? k = w.disk.node? k :=
    fun k hk => (hleads.node?_put _ k).trans (if_neg hk)
  have hresolve : Workspace.resolve
      { w with disk := w.disk.put parent file (.file (encode text)) } path =
        .ok (parent ++ [file]) := by
    rw [Workspace.resolve, hcheck]
    refine (hleads.follow hframe (.inr ⟨_, hself⟩)).trans ?_
    rw [hself]
    rfl
  constructor
  · exact hresolve
  · intro k hk
    rw [Workspace.resolve, hcheck] at hk
    replace hk := (hleads.follow (fun _ _ => rfl) hleads.takes).symm.trans hk
    split at hk
    · exact (Except.ok.inj hk).symm
    · cases hk
  · simp only [Workspace.readText, readBytes, hresolve, hself, bind, Except.bind, decode_encode]
  · exact hself
  · exact hframe
  · exact hleads.takes
  · rfl

end Workspace
end Surface
