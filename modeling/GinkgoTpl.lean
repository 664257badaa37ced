import GinkgoTpl.AbsentState
import GinkgoTpl.ApplyDecided
import GinkgoTpl.DeviceSmoke.Laplacian
import GinkgoTpl.DeviceSmoke.Options
import GinkgoTpl.Environment
import GinkgoTpl.Hypre.Cleanup
import GinkgoTpl.Hypre.Configuration
import GinkgoTpl.Hypre.ConstructionOutcome
import GinkgoTpl.Hypre.DiagonalFirst
import GinkgoTpl.Hypre.ErrorFlag
import GinkgoTpl.Hypre.Generate
import GinkgoTpl.Hypre.Hierarchy
import GinkgoTpl.Hypre.ImportFormat
import GinkgoTpl.Hypre.Moves
import GinkgoTpl.Hypre.SolveArrays
import GinkgoTpl.ImportersAgree
import GinkgoTpl.Petsc.GenerateOperator
import GinkgoTpl.Petsc.Placement
import GinkgoTpl.Petsc.Rewriting
import GinkgoTpl.Petsc.Shutdown
import GinkgoTpl.Petsc.SolvedSystem
import GinkgoTpl.Petsc.StagedApply
import GinkgoTpl.SolverLives
import GinkgoTpl.Spgemm.Ownership
import GinkgoTpl.Spgemm.Product
import GinkgoTpl.Hypre.ApplyRuns
import GinkgoTpl.Hypre.GenerateSystem
import GinkgoTpl.Hypre.SolvedSystem
