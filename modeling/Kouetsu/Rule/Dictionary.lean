import Kouetsu.Config.Rules
/-!
# Dictionaries of technical terms

Spellings with the ones that should take their place.
-/

namespace Kouetsu

def webTerms : Entries String String :=
  [("Javascript", "JavaScript"), ("javascript", "JavaScript"), ("Typescript", "TypeScript"),
    ("typescript", "TypeScript"), ("Github", "GitHub"), ("github", "GitHub"),
    ("Nodejs", "Node.js"), ("nodejs", "Node.js"), ("NodeJs", "Node.js"), ("Vscode", "VS Code"),
    ("vscode", "VS Code"), ("VScode", "VS Code"), ("Webpack", "webpack"), ("ReactJs", "React"),
    ("Reactjs", "React"), ("VueJs", "Vue.js"), ("Vuejs", "Vue.js"), ("vuejs", "Vue.js"),
    ("AngularJs", "Angular"), ("Angularjs", "Angular"), ("Nextjs", "Next.js"),
    ("nextjs", "Next.js"), ("NextJs", "Next.js")]

def generativeAiTerms : Entries String String :=
  [("chatgpt", "ChatGPT"), ("Chatgpt", "ChatGPT"), ("chat-gpt", "ChatGPT"),
    ("openai", "OpenAI"), ("Openai", "OpenAI"), ("Open AI", "OpenAI"), ("claude", "Claude"),
    ("gpt-4", "GPT-4"), ("gpt4", "GPT-4"), ("GPT4", "GPT-4"), ("llm", "LLM"), ("Llm", "LLM"),
    ("rag", "RAG"), ("Rag", "RAG"), ("gemini", "Gemini"), ("copilot", "Copilot"),
    ("Co-pilot", "Copilot"), ("midjourney", "Midjourney"), ("Mid Journey", "Midjourney"),
    ("stable diffusion", "Stable Diffusion"), ("StableDiffusion", "Stable Diffusion"),
    ("anthropic", "Anthropic")]

def awsTerms : Entries String String :=
  [("aws", "AWS"), ("Aws", "AWS"), ("ec2", "EC2"), ("s3", "S3"), ("lambda", "Lambda"),
    ("dynamodb", "DynamoDB"), ("Dynamodb", "DynamoDB"), ("rds", "RDS"),
    ("cloudformation", "CloudFormation"), ("Cloud Formation", "CloudFormation"),
    ("cloudwatch", "CloudWatch"), ("Cloud Watch", "CloudWatch"), ("ecs", "ECS"), ("eks", "EKS"),
    ("fargate", "Fargate"), ("sagemaker", "SageMaker"), ("Sagemaker", "SageMaker"),
    ("Sage Maker", "SageMaker"), ("bedrock", "Bedrock")]

def azureTerms : Entries String String :=
  [("azure", "Azure"), ("AZURE", "Azure"), ("azure functions", "Azure Functions"),
    ("azure devops", "Azure DevOps"), ("AzureDevOps", "Azure DevOps"), ("azure ad", "Azure AD"),
    ("AzureAD", "Azure AD"), ("cosmos db", "Cosmos DB"), ("CosmosDB", "Cosmos DB"),
    ("app service", "App Service"), ("azure openai", "Azure OpenAI"),
    ("AzureOpenAI", "Azure OpenAI")]

def ociTerms : Entries String String :=
  [("oci", "OCI"), ("Oci", "OCI"),
    ("oracle cloud infrastructure", "Oracle Cloud Infrastructure"),
    ("oracle cloud", "Oracle Cloud"), ("compute instance", "Compute Instance"),
    ("object storage", "Object Storage"), ("autonomous database", "Autonomous Database"),
    ("oci generative ai", "OCI Generative AI")]

def Dictionary.terms : Dictionary → Entries String String
  | .webTech => webTerms
  | .generativeAi => generativeAiTerms
  | .aws => awsTerms
  | .azure => azureTerms
  | .oci => ociTerms

/-- The terms in force: those of the dictionaries that are switched on, then those of the
user, which win. -/
def RulesConfig.terms (cfg : RulesConfig) : Entries String String :=
  let chosen := Dictionary.all.filter fun d => cfg.isOn (.dictionary d)
  Entries.merge (chosen.foldl (fun e d => Entries.merge e d.terms) []) cfg.customTerms

end Kouetsu
