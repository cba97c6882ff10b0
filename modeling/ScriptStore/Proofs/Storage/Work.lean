import ScriptStore.Storage.Work

/-!
# What work comes to

Work on the disk gives notices on its way. `Work.out` leaves them aside: the result, and the disk as
it is then. `Work.notices` is the notices alone. The rules below take a piece of work apart.
-/

namespace ScriptStore

namespace Logged

variable {α β : Type}

@[simp]
theorem value_pure (a : α) : (pure a : Logged α).value = a := rfl

@[simp]
theorem value_bind (x : Logged α) (f : α → Logged β) : (x >>= f).value = (f x.value).value := rfl

@[simp]
theorem value_map (f : α → β) (x : Logged α) : (f <$> x).value = f x.value := rfl

@[simp]
theorem value_mapM (f : α → Logged β) (l : List α) : (l.mapM f).value = l.map fun a => (f a).value := by
  have hloop : ∀ (l : List α) (done : List β),
      (List.mapM.loop f l done).value = done.reverse ++ l.map fun a => (f a).value := by
    intro l
    induction l with
    | nil =>
      intro done
      rw [List.map_nil, List.append_nil]
      rfl
    | cons a l ih =>
      intro done
      rw [List.mapM.loop, value_bind, ih, List.reverse_cons, List.append_assoc]
      rfl
  exact hloop l []

@[simp]
theorem notices_pure (a : α) : (pure a : Logged α).notices = [] := rfl

@[simp]
theorem notices_bind (x : Logged α) (f : α → Logged β) :
    (x >>= f).notices = x.notices ++ (f x.value).notices := rfl

/-- If nothing is to tell of any element, nothing is to tell of the list. -/
theorem notices_mapM {f : α → Logged β} {l : List α} (h : ∀ a ∈ l, (f a).notices = []) :
    (l.mapM f).notices = [] := by
  have hloop : ∀ (l : List α) (done : List β), (∀ a ∈ l, (f a).notices = []) →
      (List.mapM.loop f l done).notices = [] := by
    intro l
    induction l with
    | nil => exact fun done _ => rfl
    | cons a l ih =>
      intro done hl
      obtain ⟨ha, hl⟩ := List.forall_mem_cons.1 hl
      rw [List.mapM.loop, notices_bind, ha, ih _ hl]
      rfl
  exact hloop l [] h

end Logged

namespace Storage.Work

variable {α β : Type}

/-- The result of work, and the disk after it. -/
def out (w : Work α) (d : Disk) : α × Disk := (w d).value

@[simp]
theorem out_pure (a : α) (d : Disk) : out (pure a) d = (a, d) := rfl

@[simp]
theorem out_bind (w : Work α) (f : α → Work β) (d : Disk) :
    out (w >>= f) d = out (f (out w d).1) (out w d).2 := rfl

@[simp]
theorem out_get (d : Disk) : out get d = (d, d) := rfl

@[simp]
theorem out_set (d d' : Disk) : out (set d' : Work PUnit) d = (⟨⟩, d') := rfl

@[simp]
theorem out_modify (f : Disk → Disk) (d : Disk) : out (modify f : Work PUnit) d = (⟨⟩, f d) := rfl

@[simp]
theorem out_lift (x : Logged α) (d : Disk) : out (liftM x) d = (x.value, d) := rfl

/-- The notices that work gives. -/
def notices (w : Work α) (d : Disk) : List Notice := (w d).notices

@[simp]
theorem notices_pure (a : α) (d : Disk) : notices (pure a) d = [] := rfl

@[simp]
theorem notices_bind (w : Work α) (f : α → Work β) (d : Disk) :
    notices (w >>= f) d = notices w d ++ notices (f (out w d).1) (out w d).2 := rfl

@[simp]
theorem notices_get (d : Disk) : notices get d = [] := rfl

@[simp]
theorem notices_lift (x : Logged α) (d : Disk) : notices (liftM x) d = x.notices :=
  List.append_nil x.notices

end Storage.Work

theorem Storage.out_createDirectories (route : Disk.Route) (d : Disk) :
    (createDirectories route).out d
      = ((d.createDirectories route).2.mapError .file, (d.createDirectories route).1) := rfl

theorem Storage.notices_createDirectories (route : Disk.Route) (d : Disk) :
    (createDirectories route).notices d = [] := rfl

theorem Storage.out_onDisk {f : Disk → Except FileError Disk} {d d' : Disk} (h : f d = .ok d') :
    (onDisk f).out d = (.ok (), d') := by
  unfold onDisk
  rw [Work.out_bind, Work.out_get]
  dsimp only
  rw [h]
  rfl

theorem Storage.out_onDisk_error {f : Disk → Except FileError Disk} {d : Disk} {e : FileError}
    (h : f d = .error e) : (onDisk f).out d = (.error (.file e), d) := by
  unfold onDisk
  rw [Work.out_bind, Work.out_get]
  dsimp only
  rw [h]
  rfl

end ScriptStore
