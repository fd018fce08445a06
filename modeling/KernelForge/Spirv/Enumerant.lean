/-!
# Enumerated operands

The families of enumerated operands of the binary format, with the names of their members. A
family is either a plain enumeration or a set of bits; a member of a set of bits is one bit.
-/

namespace KernelForge.Spirv

/-- Names with their numbers, which follow each other. -/
def numbered (start : Nat) (names : List String) : List (Nat × String) :=
  (names.zipIdx start).map Prod.swap

/-- Families of enumerated operands. -/
inductive Family where
  /-- How addresses are represented. -/
  | addressingModel
  /-- Rules of memory access. -/
  | memoryModel
  /-- What an entry point runs as. -/
  | executionModel
  /-- Modes of an entry point. -/
  | executionMode
  /-- Features a module declares. -/
  | capability
  /-- Kinds of storage a pointer points to. -/
  | storageClass
  /-- Direction of a linked name. -/
  | linkageType
  /-- Annotations of an id. -/
  | decoration
  /-- Values the device provides. -/
  | builtIn
  /-- Annotations of a parameter. -/
  | paramAttribute
  /-- Directions of rounding. -/
  | roundingMode
  /-- Floating-point liberties. -/
  | fastMath
  /-- Hints on a function. -/
  | functionControl
  /-- Qualities of a memory access. -/
  | memoryAccess
  /-- Hints on a loop. -/
  | loopControl
  /-- Hints on a selection. -/
  | selectionControl
deriving DecidableEq, Repr, Inhabited

namespace Family

def name : Family → String
  | .addressingModel => "AddressingModel"
  | .memoryModel => "MemoryModel"
  | .executionModel => "ExecutionModel"
  | .executionMode => "ExecutionMode"
  | .capability => "Capability"
  | .storageClass => "StorageClass"
  | .linkageType => "LinkageType"
  | .decoration => "Decoration"
  | .builtIn => "BuiltIn"
  | .paramAttribute => "FunctionParameterAttribute"
  | .roundingMode => "FPRoundingMode"
  | .fastMath => "FPFastMathMode"
  | .functionControl => "FunctionControl"
  | .memoryAccess => "MemoryAccess"
  | .loopControl => "LoopControl"
  | .selectionControl => "SelectionControl"

/-- Whether the members of a family are bits that combine. -/
def isMask : Family → Bool
  | .fastMath | .functionControl | .memoryAccess | .loopControl | .selectionControl => true
  | _ => false

def members : Family → List (Nat × String)
  | .addressingModel =>
    numbered 0 ["Logical", "Physical32", "Physical64"] ++ [(5348, "PhysicalStorageBuffer64")]
  | .memoryModel => numbered 0 ["Simple", "GLSL450", "OpenCL", "Vulkan"]
  | .executionModel =>
    numbered 0 ["Vertex", "TessellationControl", "TessellationEvaluation", "Geometry", "Fragment",
     "GLCompute", "Kernel"] ++ [(5267, "TaskNV"), (5268, "MeshNV")] ++
    numbered 5313 ["RayGenerationNV", "IntersectionNV", "AnyHitNV", "ClosestHitNV", "MissNV",
     "CallableNV"] ++ [(5364, "TaskEXT"), (5365, "MeshEXT")]
  | .executionMode =>
    numbered 0 ["Invocations", "SpacingEqual", "SpacingFractionalEven", "SpacingFractionalOdd",
     "VertexOrderCw", "VertexOrderCcw", "PixelCenterInteger", "OriginUpperLeft", "OriginLowerLeft",
     "EarlyFragmentTests", "PointMode", "Xfb", "DepthReplacing"] ++
    numbered 14 ["DepthGreater", "DepthLess", "DepthUnchanged", "LocalSize", "LocalSizeHint",
     "InputPoints", "InputLines", "InputLinesAdjacency", "Triangles", "InputTrianglesAdjacency",
     "Quads", "Isolines", "OutputVertices", "OutputPoints", "OutputLineStrip",
     "OutputTriangleStrip", "VecTypeHint", "ContractionOff"] ++
    numbered 33 ["Initializer", "Finalizer", "SubgroupSize", "SubgroupsPerWorkgroup",
     "SubgroupsPerWorkgroupId", "LocalSizeId", "LocalSizeHintId"]
  | .capability =>
    numbered 0 ["Matrix", "Shader", "Geometry", "Tessellation", "Addresses", "Linkage", "Kernel",
     "Vector16", "Float16Buffer", "Float16", "Float64", "Int64", "Int64Atomics", "ImageBasic",
     "ImageReadWrite", "ImageMipmap"] ++
    numbered 17 ["Pipes", "Groups", "DeviceEnqueue", "LiteralSampler", "AtomicStorage", "Int16",
     "TessellationPointSize", "GeometryPointSize", "ImageGatherExtended"] ++
    numbered 27 ["StorageImageMultisample", "UniformBufferArrayDynamicIndexing",
     "SampledImageArrayDynamicIndexing", "StorageBufferArrayDynamicIndexing",
     "StorageImageArrayDynamicIndexing", "ClipDistance", "CullDistance", "ImageCubeArray",
     "SampleRateShading", "ImageRect", "SampledRect", "GenericPointer", "Int8", "InputAttachment",
     "SparseResidency", "MinLod", "Sampled1D", "Image1D", "SampledCubeArray", "SampledBuffer",
     "ImageBuffer", "ImageMSArray", "StorageImageExtendedFormats", "ImageQuery",
     "DerivativeControl", "InterpolationFunction", "TransformFeedback", "GeometryStreams",
     "StorageImageReadWithoutFormat", "StorageImageWriteWithoutFormat", "MultiViewport",
     "SubgroupDispatch", "NamedBarrier", "PipeStorage", "GroupNonUniform", "GroupNonUniformVote",
     "GroupNonUniformArithmetic", "GroupNonUniformBallot", "GroupNonUniformShuffle",
     "GroupNonUniformShuffleRelative", "GroupNonUniformClustered", "GroupNonUniformQuad",
     "ShaderLayer", "ShaderViewportIndex", "UniformDecoration"] ++
    [(4423, "SubgroupBallotKHR"), (4427, "DrawParameters"), (4431, "SubgroupVoteKHR")] ++
    numbered 4433 ["StorageBuffer16BitAccess", "UniformAndStorageBuffer16BitAccess",
     "StoragePushConstant16", "StorageInputOutput16", "DeviceGroup"] ++
    [(4439, "MultiView"), (4441, "VariablePointersStorageBuffer"), (4442, "VariablePointers"),
     (4445, "AtomicStorageOps")] ++
    numbered 4447 ["SampleMaskPostDepthCoverage", "StorageBuffer8BitAccess",
     "UniformAndStorageBuffer8BitAccess", "StoragePushConstant8"] ++
    numbered 4464 ["DenormPreserve", "DenormFlushToZero", "SignedZeroInfNanPreserve",
     "RoundingModeRTE", "RoundingModeRTZ"] ++
    numbered 5345 ["VulkanMemoryModel", "VulkanMemoryModelDeviceScope",
     "PhysicalStorageBufferAddresses"]
  | .storageClass =>
    numbered 0 ["UniformConstant", "Input", "Uniform", "Output", "Workgroup", "CrossWorkgroup",
     "Private", "Function", "Generic", "PushConstant", "AtomicCounter", "Image", "StorageBuffer"] ++
    [(4172, "TileImageEXT"), (5068, "NodePayloadAMDX"), (5076, "NodeOutputPayloadAMDX"),
     (5328, "CallableDataNV"), (5329, "IncomingCallableDataNV"), (5338, "RayPayloadNV"),
     (5339, "HitAttributeNV"), (5342, "IncomingRayPayloadNV"), (5343, "ShaderRecordBufferNV"),
     (5349, "PhysicalStorageBuffer"), (5385, "HitObjectAttributeNV"),
     (5402, "TaskPayloadWorkgroupEXT"), (5605, "CodeSectionINTEL"), (5936, "DeviceOnlyINTEL"),
     (5937, "HostOnlyINTEL")]
  | .linkageType => numbered 0 ["Export", "Import", "LinkOnceODR"]
  | .decoration =>
    numbered 0 ["RelaxedPrecision", "SpecId", "Block", "BufferBlock", "RowMajor", "ColMajor",
     "ArrayStride", "MatrixStride", "GLSLShared", "GLSLPacked", "CPacked", "BuiltIn"] ++
    numbered 13 ["NoPerspective", "Flat", "Patch", "Centroid", "Sample", "Invariant", "Restrict",
     "Aliased", "Volatile", "Constant", "Coherent", "NonWritable", "NonReadable", "Uniform",
     "UniformId", "SaturatedConversion", "Stream", "Location", "Component", "Index", "Binding",
     "DescriptorSet", "Offset", "XfbBuffer", "XfbStride", "FuncParamAttr", "FPRoundingMode",
     "FPFastMathMode", "LinkageAttributes", "NoContraction", "InputAttachmentIndex", "Alignment",
     "MaxByteOffset", "AlignmentId", "MaxByteOffsetId"]
  | .builtIn =>
    [(0, "Position"), (1, "PointSize")] ++
    numbered 3 ["ClipDistance", "CullDistance", "VertexId", "InstanceId", "PrimitiveId",
     "InvocationId", "Layer", "ViewportIndex", "TessLevelOuter", "TessLevelInner", "TessCoord",
     "PatchVertices", "FragCoord", "PointCoord", "FrontFacing", "SampleId", "SamplePosition",
     "SampleMask"] ++
    numbered 22 ["FragDepth", "HelperInvocation", "NumWorkgroups", "WorkgroupSize", "WorkgroupId",
     "LocalInvocationId", "GlobalInvocationId", "LocalInvocationIndex", "WorkDim", "GlobalSize",
     "EnqueuedWorkgroupSize", "GlobalOffset", "GlobalLinearId"] ++
    numbered 36 ["SubgroupSize", "SubgroupMaxSize", "NumSubgroups", "NumEnqueuedSubgroups",
     "SubgroupId", "SubgroupLocalInvocationId", "VertexIndex", "InstanceIndex"] ++
    numbered 4416 ["SubgroupEqMask", "SubgroupGeMask", "SubgroupGtMask", "SubgroupLeMask",
     "SubgroupLtMask"] ++ numbered 4424 ["BaseVertex", "BaseInstance", "DrawIndex"] ++
    [(4438, "DeviceIndex"), (4440, "ViewIndex")]
  | .paramAttribute =>
    numbered 0 ["Zext", "Sext", "ByVal", "Sret", "NoAlias", "NoCapture", "NoWrite", "NoReadWrite"]
  | .roundingMode => numbered 0 ["RTE", "RTZ", "RTP", "RTN"]
  | .fastMath => [(1, "NotNaN"), (2, "NotInf"), (4, "NSZ"), (8, "AllowRecip"), (16, "Fast")]
  | .functionControl =>
    [(1, "Inline"), (2, "DontInline"), (4, "Pure"), (8, "Const"), (65536, "OptNoneINTEL")]
  | .memoryAccess =>
    [(1, "Volatile"), (2, "Aligned"), (4, "Nontemporal"), (8, "MakePointerAvailable"), (16,
     "MakePointerVisible"), (32, "NonPrivatePointer"), (65536, "AliasScopeINTELMask"), (131072,
     "NoAliasINTELMask")]
  | .loopControl =>
    [(1, "Unroll"), (2, "DontUnroll"), (4, "DependencyInfinite"), (8, "DependencyLength"), (16,
     "MinIterations"), (32, "MaxIterations"), (64, "IterationMultiple"), (128, "PeelCount"), (256,
     "PartialCount")]
  | .selectionControl => [(1, "Flatten"), (2, "DontFlatten")]

def memberName? (f : Family) (n : Nat) : Option String :=
  (f.members.find? fun m => m.1 == n).map Prod.snd

/-- Whether a number is a member, or for a set of bits a combination of members. -/
def admits (f : Family) (n : Nat) : Bool :=
  if f.isMask then n &&& f.members.foldl (fun acc m => acc ||| m.1) 0 == n
  else (f.memberName? n).isSome

/-- Written form of a number of the family: the names of its bits, or the name of the member. -/
def text (f : Family) (n : Nat) : String :=
  if f.isMask then
    if n = 0 then "None"
    else "|".intercalate ((f.members.filter fun m => n &&& m.1 != 0).map Prod.snd)
  else (f.memberName? n).getD (toString n)

end Family

/-! ## Members with a role in code generation and on the device -/

/-- Kinds of storage a pointer points to. -/
abbrev StorageClass := Nat

namespace StorageClass

/-- Read-only values the device provides. -/
def input : StorageClass := 1

/-- Memory shared by a workgroup. -/
def workgroup : StorageClass := 4

/-- The heap. -/
def crossWorkgroup : StorageClass := 5

/-- Variables of one call. -/
def function : StorageClass := 7

/-- Any of the heap, workgroup and function storage. -/
def generic : StorageClass := 8

end StorageClass

/-- Values the device provides. -/
abbrev BuiltIn := Nat

namespace BuiltIn

def workgroupSize : BuiltIn := 25

def workgroupId : BuiltIn := 26

/-- Index of the work-item in its workgroup. -/
def localInvocationId : BuiltIn := 27

/-- Index of the work-item in the launch. -/
def globalInvocationId : BuiltIn := 28

/-- Extent of the launch. -/
def globalSize : BuiltIn := 31

end BuiltIn

/-- Features a module declares. -/
abbrev Capability := Nat

namespace Capability

def addresses : Capability := 4

def linkage : Capability := 5

def kernel : Capability := 6

/-- Vectors of eight or sixteen lanes. -/
def vector16 : Capability := 7

def float16 : Capability := 9

def float64 : Capability := 10

def int64 : Capability := 11

def int16 : Capability := 22

def genericPointer : Capability := 38

def int8 : Capability := 39

end Capability

end KernelForge.Spirv
